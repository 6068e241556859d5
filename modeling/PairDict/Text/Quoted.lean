import PairDict.Text.Shown
import PairDict.Text.Utf8

/-! # Quoted texts

A quoted text shows any text on one line between double quotes.  Quotes,
backslashes and the control characters that have a name are written with a
backslash; every other character that does not print is written by its code, in
two, four or eight hexadecimal digits.  A byte that belongs to no character is
written by its two digits.
-/
namespace PairDict.Quoted

/-- The last `digits` hexadecimal digits of a number. -/
def hex : Nat → Nat → List Char
  | 0, _ => []
  | digits + 1, n => hex digits (n / 16) ++ [Nat.digitChar (n % 16)]

/-- How a character is written between quotes. -/
def quoteChar (c : Char) : List Char :=
  if c = '"' then ['\\', '"']
  else if c = '\\' then ['\\', '\\']
  else if Shown.isShown c then [c]
  else if c = '\x07' then ['\\', 'a']
  else if c = '\x08' then ['\\', 'b']
  else if c = '\x0c' then ['\\', 'f']
  else if c = '\n' then ['\\', 'n']
  else if c = '\r' then ['\\', 'r']
  else if c = '\t' then ['\\', 't']
  else if c = '\x0b' then ['\\', 'v']
  else if c.toNat < 0x20 || c.toNat = 0x7F then '\\' :: 'x' :: hex 2 c.toNat
  else if c.toNat < 0x10000 then '\\' :: 'u' :: hex 4 c.toNat
  else '\\' :: 'U' :: hex 8 c.toNat

/-- A text between quotes. -/
def quote (s : String) : String :=
  "\"" ++ String.ofList (s.toList.flatMap quoteChar) ++ "\""

/-- How a glyph is written between quotes. -/
def quoteGlyph : Glyph → List Char
  | .char c => quoteChar c
  | .stray b => '\\' :: 'x' :: hex 2 b.toNat

/-- Bytes between quotes. -/
def quoteBytes (bs : List UInt8) : String :=
  "\"" ++ String.ofList ((Utf8.decode bs).flatMap quoteGlyph) ++ "\""

end PairDict.Quoted
