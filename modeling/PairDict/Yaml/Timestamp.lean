import PairDict.Yaml.Input

/-! # Times in documents

A time is a date, or a date and a time of day.  The date is four digits of a year, a
month and a day; a `T` before the time of day asks for a time zone after it, and blanks
before it ask for none.  All numbers but the year have one or two digits, those of a
time zone two.
-/
namespace PairDict.Yaml.Timestamp

/-- Read a number of one or two digits: it and what follows. -/
def short? : List Char → Option (Nat × List Char)
  | a :: b :: cs =>
    if !isDigit a then none
    else if isDigit b then some ((a.toNat - 48) * 10 + (b.toNat - 48), cs)
    else some (a.toNat - 48, b :: cs)
  | [a] => if isDigit a then some (a.toNat - 48, []) else none
  | [] => none

/-- What follows a character, if it is the next one. -/
def after? (c : Char) : List Char → Option (List Char)
  | d :: cs => if d = c then some cs else none
  | [] => none

/-- The number of days of a month. -/
def daysIn (year month : Nat) : Nat :=
  if month = 2 then
    if year % 4 = 0 && (year % 100 ≠ 0 || year % 400 = 0) then 29 else 28
  else if month = 4 || month = 6 || month = 9 || month = 11 then 30
  else 31

/-- What follows a date. -/
def date? (cs : List Char) : Option (List Char) := do
  let year := cs.takeWhile isDigit
  if year.length ≠ 4 then none
  let cs ← after? '-' (cs.drop 4)
  let (month, cs) ← short? cs
  let cs ← after? '-' cs
  let (day, cs) ← short? cs
  if 1 ≤ month && month ≤ 12 && 1 ≤ day && day ≤ daysIn (Nat.ofDigitChars 10 year 0) month then
    some cs
  else none

/-- What follows a fraction of a second, which may be left out. -/
def afterFraction : List Char → List Char
  | c :: d :: cs =>
    if (c = '.' || c = ',') && isDigit d then cs.dropWhile isDigit else c :: d :: cs
  | cs => cs

/-- What follows a time of day. -/
def clock? (cs : List Char) : Option (List Char) := do
  let (hour, cs) ← short? cs
  let cs ← after? ':' cs
  let (minute, cs) ← short? cs
  let cs ← after? ':' cs
  let (second, cs) ← short? cs
  if hour < 24 && minute < 60 && second < 60 then some (afterFraction cs) else none

/-- Whether the characters are a time zone. -/
def isZone : List Char → Bool
  | ['Z'] => true
  | [sign, a, b, ':', c, d] =>
    (sign = '+' || sign = '-') && [a, b, c, d].all isDigit &&
      Nat.ofDigitChars 10 [a, b] 0 ≤ 24 && Nat.ofDigitChars 10 [c, d] 0 ≤ 60
  | _ => false

/-- Whether the characters are a time. -/
def isTime (cs : List Char) : Bool :=
  match date? cs with
  | none => false
  | some [] => true
  | some ('T' :: cs) | some ('t' :: cs) => (clock? cs).any isZone
  | some (' ' :: cs) => clock? (cs.dropWhile (· = ' ')) = some []
  | some _ => false

end PairDict.Yaml.Timestamp
