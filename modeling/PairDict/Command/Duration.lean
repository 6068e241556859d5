/-! # Durations

A duration is written in the largest of the units `ns`, `µs`, `ms` and `s` that it
reaches, as a decimal fraction without trailing zeros; from a minute on, with the
hours and minutes before the seconds.
-/
namespace PairDict.Duration

/-- The decimal fraction `n / Nat.pow 10 places`, without trailing zeros. -/
def fraction (n places : Nat) : String :=
  let digits := (toString (n % Nat.pow 10 places)).toList
  let padded := List.replicate (places - digits.length) '0' ++ digits
  let shown := (padded.reverse.dropWhile (· = '0')).reverse
  toString (n / Nat.pow 10 places) ++ if shown.isEmpty then "" else "." ++ String.ofList shown

/-- How a number of nanoseconds is written. -/
def text (ns : Nat) : String :=
  if ns = 0 then "0s"
  else if ns < Nat.pow 10 3 then toString ns ++ "ns"
  else if ns < Nat.pow 10 6 then fraction ns 3 ++ "µs"
  else if ns < Nat.pow 10 9 then fraction ns 6 ++ "ms"
  else
    let minute := 60 * Nat.pow 10 9
    let hour := 60 * minute
    let hours := if hour ≤ ns then toString (ns / hour) ++ "h" else ""
    let minutes := if minute ≤ ns then toString (ns % hour / minute) ++ "m" else ""
    hours ++ minutes ++ fraction (ns % minute) 9 ++ "s"

end PairDict.Duration
