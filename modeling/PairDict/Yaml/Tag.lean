import PairDict.Yaml.Node
import PairDict.Yaml.Number
import PairDict.Yaml.Timestamp

/-! # What nodes stand for

The **tag** of a node says what it stands for.  A tag can be given.  Otherwise lists and
mappings have tags of their own, a quoted scalar stands for its text, and a plain scalar
for what it looks like: nothing, a truth value, a number, a time, or its text.  A plain
`<<` asks for a merge.

A scalar whose tag is given has to look like what the tag says; an integer that fits in
64 bits with its sign will do for a fraction.  Any scalar will do for a tag that is not known here.
-/
namespace PairDict.Yaml

/-- What a node stands for. -/
inductive Tag where
  | null | bool | int | float | timestamp | str | binary | merge | seq | map
  /-- A tag that is not known here. -/
  | other (name : String)
  deriving DecidableEq, Repr

namespace Tag

/-- The known tags. -/
def known : List Tag := [.null, .bool, .int, .float, .timestamp, .str, .binary, .merge, .seq, .map]

/-- How a tag is written. -/
def text : Tag → String
  | .null => "!!null"
  | .bool => "!!bool"
  | .int => "!!int"
  | .float => "!!float"
  | .timestamp => "!!timestamp"
  | .str => "!!str"
  | .binary => "!!binary"
  | .merge => "!!merge"
  | .seq => "!!seq"
  | .map => "!!map"
  | .other name => name

/-- What the known tags start with, written out. -/
def long : String := "tag:yaml.org,2002:"

/-- The tag of a name that was given. -/
def ofName (name : String) : Tag :=
  let short := if name.startsWith long then "!!" ++ (name.drop long.length).toString else name
  (known.find? (·.text = short)).getD (.other short)

/-! ## Plain scalars -/

/-- The spellings of nothing. -/
def nulls : List String := ["", "~", "null", "Null", "NULL"]

/-- The spellings of the truth values. -/
def bools : List (String × Bool) :=
  [("true", true), ("True", true), ("TRUE", true),
   ("false", false), ("False", false), ("FALSE", false)]

/-- The spellings that count as truth values where one is wanted. -/
def wishes : List (String × Bool) :=
  ["y", "Y", "yes", "Yes", "YES", "on", "On", "ON"].map (·, true) ++
    ["n", "N", "no", "No", "NO", "off", "Off", "OFF"].map (·, false)

/-- The spellings of infinities and of no number. -/
def extremes : List String :=
  [".nan", ".NaN", ".NAN", ".inf", ".Inf", ".INF", "+.inf", "+.Inf", "+.INF",
   "-.inf", "-.Inf", "-.INF"]

/-- What a scalar looks like; times are recognized only if `times` says so. -/
def look (times : Bool) (s : String) : Tag :=
  if nulls.contains s then .null
  else if (bools.lookup s).isSome then .bool
  else if extremes.contains s then .float
  else
    let cs := s.toList
    let bare := cs.filter (· ≠ '_')
    match cs with
    | '.' :: _ => if Number.areBetween false cs && Number.isFraction bare then .float else .str
    | c :: _ =>
      if isDigit c || c = '+' || c = '-' then
        if times && Timestamp.isTime cs then .timestamp
        else if Number.isInteger bare then .int
        else if Number.isFraction bare then .float
        else .str
      else .str
    | [] => .str

end Tag

/-- The tag of a scalar, given or not. -/
def Place.scalarTag (p : Place) (text : String) (quoted : Bool) : Tag :=
  match p.tag with
  | none | some "!" => if quoted then .str else if text = "<<" then .merge else Tag.look true text
  | some name => .ofName name

namespace Node

/-- The tag of a node.  An alias has none of its own. -/
def tag : Node → Tag
  | .scalar p text quoted => p.scalarTag text quoted
  | .seq p _ =>
    match p.tag with
    | none | some "!" => .seq
    | some name => .ofName name
  | .map p _ =>
    match p.tag with
    | none | some "!" => .map
    | some name => .ofName name
  | .reference _ _ _ => .other ""

end Node

/-! ## Values -/

/-- The value of a character of the encoding of bytes. -/
def sextet? (c : Char) : Option Nat :=
  if 'A' ≤ c && c ≤ 'Z' then some (c.toNat - 'A'.toNat)
  else if 'a' ≤ c && c ≤ 'z' then some (c.toNat - 'a'.toNat + 26)
  else if isDigit c then some (c.toNat - '0'.toNat + 52)
  else if c = '+' then some 62
  else if c = '/' then some 63
  else none

/-- The bytes that encoded characters spell: four characters for three bytes, with `=` for
those that are not needed at the end. -/
def unpack? : List Char → Option (List UInt8)
  | [] => some []
  | [a, b, '=', '='] => do
    let n := (← sextet? a) * 64 + (← sextet? b)
    return [UInt8.ofNat (n / 16)]
  | [a, b, c, '='] => do
    let n := ((← sextet? a) * 64 + (← sextet? b)) * 64 + (← sextet? c)
    return [UInt8.ofNat (n / 1024), UInt8.ofNat (n / 4)]
  | a :: b :: c :: d :: cs => do
    let n := (((← sextet? a) * 64 + (← sextet? b)) * 64 + (← sextet? c)) * 64 + (← sextet? d)
    return UInt8.ofNat (n / 65536) :: UInt8.ofNat (n / 256) :: UInt8.ofNat n :: (← unpack? cs)
  | _ => none

/-- What a scalar is worth. -/
inductive Worth where
  /-- Nothing. -/
  | null
  /-- A truth value. -/
  | bool (b : Bool)
  /-- A text. -/
  | text (bytes : List UInt8)
  /-- A number or a time. -/
  | number
  deriving DecidableEq, Repr

/-- What a scalar with a tag is worth. -/
def worth (tag : Tag) (text : String) : Except Problem Worth :=
  let check (fits : Bool) (w : Worth) : Except Problem Worth :=
    if fits then .ok w else .error ⟨.badTag (Tag.look false text).text text tag.text, 0⟩
  let looks := Tag.look (tag = .timestamp) text
  match tag with
  | .null => check (looks = .null) .null
  | .bool => check (looks = .bool) (.bool ((Tag.bools.lookup text).getD false))
  | .int => check (looks = .int) .number
  | .float =>
    let wide := Number.isWide (text.toList.filter (· ≠ '_'))
    check (looks = .float || looks = .int && !wide) .number
  | .timestamp => check (looks = .timestamp) .number
  | .binary =>
    match unpack? (text.toList.filter fun c => c ≠ '\n' && c ≠ '\r') with
    | some bytes => .ok (.text bytes)
    | none => .error ⟨.badEncoding, 0⟩
  | _ => .ok (.text (Utf8.ofString text))

end PairDict.Yaml
