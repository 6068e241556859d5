/-! # JSON documents

A document is written with two blanks of indentation a level, one member or
element a line; an empty list or object stays on its line.  Object members are
written in the order in which they are given.

Texts are quoted so that a document can stand inside a web page: besides quotes,
backslashes and control characters, the characters `<`, `>` and `&` and the two
Unicode line separators are written by their code.

A value in which too many lists and objects are open at once has no document.  The
bracket that is blamed for it is the first one in the text that opens one too many.
-/
namespace PairDict

mutual

/-- A JSON value. -/
inductive Json where
  /-- A text. -/
  | text (s : String)
  /-- An integer. -/
  | int (n : Int)
  /-- A truth value. -/
  | bool (b : Bool)
  /-- A list. -/
  | list (items : JsonItems)
  /-- An object. -/
  | object (fields : JsonFields)

/-- The elements of a list. -/
inductive JsonItems where
  /-- No element. -/
  | nil
  /-- An element and those after it. -/
  | cons (j : Json) (rest : JsonItems)

/-- The members of an object. -/
inductive JsonFields where
  /-- No member. -/
  | nil
  /-- A member and those after it. -/
  | cons (key : String) (value : Json) (rest : JsonFields)

end

/-- Members in the order of a list. -/
def JsonFields.ofList : List (String × Json) → JsonFields
  | [] => .nil
  | (k, v) :: fs => .cons k v (ofList fs)

namespace Json

/-- An object with the given members. -/
def ofFields (fields : List (String × Json)) : Json := .object (JsonFields.ofList fields)

/-- A hexadecimal digit. -/
def hexDigit (n : Nat) : Char := Nat.digitChar n

/-- A code written with four hexadecimal digits. -/
def escapeCode (n : Nat) : List Char :=
  ['\\', 'u', hexDigit (n / 4096 % 16), hexDigit (n / 256 % 16), hexDigit (n / 16 % 16),
   hexDigit (n % 16)]

/-- How a character is written between quotes. -/
def quoteChar (c : Char) : List Char :=
  if c = '"' then ['\\', '"']
  else if c = '\\' then ['\\', '\\']
  else if c = '\n' then ['\\', 'n']
  else if c = '\r' then ['\\', 'r']
  else if c = '\t' then ['\\', 't']
  else if c = '\x08' then ['\\', 'b']
  else if c = '\x0c' then ['\\', 'f']
  else if c.toNat < 0x20 || c = '<' || c = '>' || c = '&' || c = '\u2028' || c = '\u2029' then
    escapeCode c.toNat
  else [c]

/-- A text between quotes. -/
def quote (s : String) : String :=
  "\"" ++ String.ofList (s.toList.flatMap quoteChar) ++ "\""

/-- The start of a line at a depth. -/
def newline (depth : Nat) : String := "\n" ++ String.join (List.replicate depth "  ")

end Json

mutual

/-- A value as it is written at a depth. -/
def Json.render (depth : Nat) : Json → String
  | .text s => Json.quote s
  | .int n => toString n
  | .bool b => if b then "true" else "false"
  | .list .nil => "[]"
  | .list (.cons j rest) =>
    "[" ++ Json.newline (depth + 1) ++ j.render (depth + 1) ++ rest.render (depth + 1) ++
      Json.newline depth ++ "]"
  | .object .nil => "\x7b\x7d"
  | .object (.cons k v rest) =>
    "\x7b" ++ Json.newline (depth + 1) ++ Json.quote k ++ ": " ++ v.render (depth + 1) ++
      rest.render (depth + 1) ++ Json.newline depth ++ "\x7d"

/-- The elements after the first, each after a comma. -/
def JsonItems.render (depth : Nat) : JsonItems → String
  | .nil => ""
  | .cons j rest => "," ++ Json.newline depth ++ j.render depth ++ rest.render depth

/-- The members after the first, each after a comma. -/
def JsonFields.render (depth : Nat) : JsonFields → String
  | .nil => ""
  | .cons k v rest =>
    "," ++ Json.newline depth ++ Json.quote k ++ ": " ++ v.render depth ++ rest.render depth

end

/-! ## Documents -/

mutual

/-- How many lists and objects are open at once where most of them are. -/
def Json.depth : Json → Nat
  | .text _ | .int _ | .bool _ => 0
  | .list items => items.depth + 1
  | .object fields => fields.depth + 1

/-- How many lists and objects are open at once in some element. -/
def JsonItems.depth : JsonItems → Nat
  | .nil => 0
  | .cons j rest => max j.depth rest.depth

/-- How many lists and objects are open at once in some member. -/
def JsonFields.depth : JsonFields → Nat
  | .nil => 0
  | .cons _ v rest => max v.depth rest.depth

end

mutual

/-- The first bracket of a value that opens one level too many, where there is room
for a number of levels. -/
def Json.excess? (room : Nat) : Json → Option Char
  | .text _ | .int _ | .bool _ => none
  | .list items => if room = 0 then some '[' else items.excess? (room - 1)
  | .object fields => if room = 0 then some '\x7b' else fields.excess? (room - 1)

/-- The first such bracket of the elements. -/
def JsonItems.excess? (room : Nat) : JsonItems → Option Char
  | .nil => none
  | .cons j rest =>
    match j.excess? room with
    | some c => some c
    | none => rest.excess? room

/-- The first such bracket of the members. -/
def JsonFields.excess? (room : Nat) : JsonFields → Option Char
  | .nil => none
  | .cons _ v rest =>
    match v.excess? room with
    | some c => some c
    | none => rest.excess? room

end

namespace Json

/-- The most lists and objects that may be open at once. -/
def nestingLimit : Nat := 10000

/-- A bracket opens one level too many. -/
structure TooDeep where
  /-- The bracket. -/
  bracket : Char
  deriving DecidableEq, Repr

/-- The error as it is reported. -/
def TooDeep.message (e : TooDeep) : String :=
  "invalid character '" ++ e.bracket.toString ++ "' exceeded max depth"

/-- The text of a value, and the end of its last line. -/
def written (j : Json) : String := j.render 0 ++ "\n"

/-- A document of its own. -/
def document (j : Json) : Except TooDeep String :=
  match j.excess? nestingLimit with
  | some c => .error ⟨c⟩
  | none => .ok j.written

end Json

end PairDict
