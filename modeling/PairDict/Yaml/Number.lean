import PairDict.Yaml.Input

/-! # Numbers in documents

An **integer** may be written in base 2, 8, 10 or 16, which shows in how it begins, and
with a sign.  It has to fit in 64 bits, without a sign in all of them.  Two prefixes may
also stand before the sign.

A **fraction** is a decimal number with a point, an exponent, or neither.  It has to be
below the largest floating-point number of 64 bits, rounding included.

Underscores may stand anywhere in a number that starts with a digit or a sign.  In one
that starts with a point they have to stand between digits.
-/
namespace PairDict.Yaml.Number

/-- The number that digits of a base spell, most significant first. -/
def digits? (base : Nat) (cs : List Char) : Option Nat :=
  if cs.isEmpty then none
  else cs.foldl (fun acc c => do
    let n ← acc
    let d ← hexDigit? c
    if d < base then some (n * base + d) else none) (some 0)

/-- The number that digits spell whose base shows in how they begin. -/
def natural? : List Char → Option Nat
  | '0' :: 'x' :: cs | '0' :: 'X' :: cs => digits? 16 cs
  | '0' :: 'o' :: cs | '0' :: 'O' :: cs => digits? 8 cs
  | '0' :: 'b' :: cs | '0' :: 'B' :: cs => digits? 2 cs
  | ['0'] => some 0
  | '0' :: cs => digits? 8 cs
  | cs => digits? 10 cs

/-- Whether the characters spell an integer of 64 bits, whose digits `read` reads. -/
def fits (read : List Char → Option Nat) : List Char → Bool
  | '-' :: cs => (read cs).any (· ≤ Nat.pow 2 63)
  | '+' :: cs => (read cs).any (· < Nat.pow 2 63)
  | cs => (read cs).any (· < Nat.pow 2 64)

/-- Whether the characters spell an integer. -/
def isInteger (cs : List Char) : Bool :=
  fits natural? cs ||
    match cs with
    | '0' :: 'b' :: cs => fits (digits? 2) cs
    | '0' :: 'o' :: cs => fits (digits? 8) cs
    | _ => false

/-- Whether the characters spell an integer that fits in 64 bits only without a sign. -/
def isWide (cs : List Char) : Bool := (natural? cs).any (Nat.pow 2 63 ≤ ·)

/-! ## Fractions -/

/-- Drop a sign. -/
def unsigned : List Char → List Char
  | '+' :: cs | '-' :: cs => cs
  | cs => cs

/-- The exponent that characters spell, if they are one; zero for no characters. -/
def exponent? : List Char → Option Int
  | [] => some 0
  | 'e' :: cs | 'E' :: cs =>
    let ds := unsigned cs
    if ds.isEmpty || !ds.all isDigit then none
    else
      let n := Int.ofNat (Nat.ofDigitChars 10 (ds.dropWhile (· = '0') |>.take 5) 0)
      some (if cs.head? = some '-' then -n else n)
  | _ => none

/-- The least number that rounds to no floating-point number. -/
def tooLarge : Nat := Nat.pow 2 1024 - Nat.pow 2 970

/-- Whether `m * 10 ^ e` rounds to a floating-point number. -/
def isFinite (m : Nat) (e : Int) : Bool :=
  m = 0 || if 0 ≤ e then decide (m * Nat.pow 10 e.toNat < tooLarge)
    else decide (m < tooLarge * Nat.pow 10 (-e).toNat)

/-- Whether the characters spell a fraction. -/
def isFraction (cs : List Char) : Bool :=
  let cs := unsigned cs
  let whole := cs.takeWhile isDigit
  let (part, rest) := match cs.dropWhile isDigit with
    | '.' :: rest => (rest.takeWhile isDigit, rest.dropWhile isDigit)
    | rest => ([], rest)
  match exponent? rest with
  | none => false
  | some e =>
    (!whole.isEmpty || !part.isEmpty) &&
      isFinite (Nat.ofDigitChars 10 (whole ++ part) 0) (e - part.length)

/-- Whether every underscore stands between two digits, where `digit` says that the
character before is one. -/
def areBetween (digit : Bool) : List Char → Bool
  | [] => true
  | '_' :: cs => digit && (cs.head?.map isDigit).getD false && areBetween false cs
  | c :: cs => areBetween (isDigit c) cs

end PairDict.Yaml.Number
