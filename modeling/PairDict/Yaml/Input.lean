import PairDict.Text.Utf8
import PairDict.Yaml.Problem

/-! # The characters of a document

A document is read from UTF-8, or from UTF-16 if a byte order mark says so.  It may hold
tabs, line ends and characters that print, and no other control characters.

Lines end with a line feed, a carriage return, both, or the next-line character;
all of these are read as a **line feed**.  The line and paragraph separators of
Unicode end a line too and stay what they are.

Bytes are read a **block** at a time.  A block with a bad byte in it is not read at
all, so the text stops at its start; what comes before may still be a document.

After the byte order mark that tells the encoding the text may start with another one.
While the block with that one is read, the first character of a line is taken for such a
mark where a token is looked for.
-/
namespace PairDict.Yaml

/-- Text and, if it stops before the end of the document, why. -/
structure Input where
  /-- The characters. -/
  chars : List Char
  /-- Why there are no more, if there should be. -/
  stop : Option Problem := none
  /-- The number of characters among which lines start with a mark. -/
  marked : Nat := 0
  deriving DecidableEq, Repr

namespace Input

/-- The number of bytes that are read at a time. -/
def blockSize : Nat := 512

/-- Whether a character may stand in a document. -/
def isAllowed (c : Char) : Bool :=
  let n := c.toNat
  n = 0x09 || n = 0x0A || n = 0x0D || (0x20 ≤ n && n ≤ 0x7E) || n = 0x85 ||
    (0xA0 ≤ n && n ≤ 0xFFFD) || 0x10000 ≤ n

/-- The number of bytes of the character that a byte starts. -/
def width? (b : UInt8) : Option Nat :=
  if b < 0x80 then some 1
  else if b &&& 0xE0 = 0xC0 then some 2
  else if b &&& 0xF0 = 0xE0 then some 3
  else if b &&& 0xF8 = 0xF0 then some 4
  else none

/-- The number that the bytes of a character spell. -/
def code (width : Nat) (first : UInt8) (more : List UInt8) : Nat :=
  more.foldl (fun n b => n * 64 + b.toNat % 64) (first.toNat % Nat.pow 2 (8 - width - 1))

/-- Why no character stands at the front of some bytes. -/
def fault (b : UInt8) (bs : List UInt8) : Cause :=
  match width? b with
  | none => .leadingOctet
  | some width =>
    let more := bs.take (width - 1)
    if more.length < width - 1 then .incompleteOctets
    else if more.any fun b => b &&& 0xC0 ≠ 0x80 then .trailingOctet
    else
      let least := if width = 2 then 0x80 else if width = 3 then 0x800 else 0x10000
      if code width b more < least then .octetLength else .notCharacter

/-- The characters of some bytes, up to the first fault and its offset.  The first
`skip` bytes belong to a character that was already read. -/
def decodeAfter (offset : Nat) : Nat → List UInt8 → List (Nat × Char) × Option (Nat × Cause)
  | _, [] => ([], none)
  | skip + 1, _ :: bs => decodeAfter (offset + 1) skip bs
  | 0, b :: bs =>
    match Utf8.front? (b :: bs) with
    | none => ([], some (offset, fault b bs))
    | some c =>
      if isAllowed c then
        let (cs, stop) := decodeAfter (offset + 1) (c.utf8Size - 1) bs
        ((offset, c) :: cs, stop)
      else ([], some (offset, .controlCharacter))

/-- The unit that two bytes spell. -/
def unit (littleEndian : Bool) (a b : UInt8) : Nat :=
  if littleEndian then b.toNat * 256 + a.toNat else a.toNat * 256 + b.toNat

/-- The characters of bytes that spell units of 16 bits, up to the first fault and its
offset. -/
def decodeUnits (littleEndian : Bool) (offset : Nat) :
    List UInt8 → List (Nat × Char) × Option (Nat × Cause)
  | [] => ([], none)
  | [_] => ([], some (offset, .incompleteUnit))
  | a :: b :: bs =>
    let high := unit littleEndian a b
    if 0xDC00 ≤ high && high < 0xE000 then ([], some (offset, .lowSurrogate))
    else if 0xD800 ≤ high && high < 0xDC00 then
      match bs with
      | c :: d :: bs' =>
        let low := unit littleEndian c d
        if 0xDC00 ≤ low && low < 0xE000 then
          let (cs, stop) := decodeUnits littleEndian (offset + 4) bs'
          ((offset, Char.ofNat (0x10000 + (high - 0xD800) * 1024 + (low - 0xDC00))) :: cs, stop)
        else ([], some (offset, .noLowSurrogate))
      | _ => ([], some (offset, .incompletePair))
    else if isAllowed (Char.ofNat high) then
      let (cs, stop) := decodeUnits littleEndian (offset + 2) bs
      ((offset, Char.ofNat high) :: cs, stop)
    else ([], some (offset, .controlCharacter))

/-- The characters of a document, up to the first fault and its offset. -/
def decode : List UInt8 → List (Nat × Char) × Option (Nat × Cause)
  | 0xFF :: 0xFE :: bs => decodeUnits true 2 bs
  | 0xFE :: 0xFF :: bs => decodeUnits false 2 bs
  | 0xEF :: 0xBB :: 0xBF :: bs => decodeAfter 3 0 bs
  | bs => decodeAfter 0 0 bs

/-- Every line end but the separators as a line feed. -/
def unifyLines : List Char → List Char
  | [] => []
  | '\r' :: '\n' :: cs => '\n' :: unifyLines cs
  | c :: cs => (if c = '\r' || c = '\u0085' then '\n' else c) :: unifyLines cs

/-- The number of characters of the first block, if it starts with a byte order mark. -/
def markedLength (cs : List (Nat × Char)) : Nat :=
  if (cs.head?.map Prod.snd) = some '\ufeff' then
    (unifyLines ((cs.filter (·.1 < blockSize)).map Prod.snd)).length
  else 0

/-- Whether more bytes could mend a fault. -/
def isIncomplete : Cause → Bool
  | .incompleteOctets | .incompleteUnit | .incompletePair => true
  | _ => false

/-- The text of some bytes, after which no more can be delivered for the reason
`failure`, if there is one. -/
def ofBytes (bytes : List UInt8) (failure : Option String) : Input :=
  let stop : Option Problem := failure.map fun r => ⟨.unreadable r, 0⟩
  match decode bytes with
  | (cs, none) => ⟨unifyLines (cs.map Prod.snd), stop, markedLength cs⟩
  | (cs, some (offset, cause)) =>
    if isIncomplete cause && stop.isSome then ⟨unifyLines (cs.map Prod.snd), stop, markedLength cs⟩
    else
      let start := offset / blockSize * blockSize
      ⟨unifyLines ((cs.filter (·.1 < start)).map Prod.snd), some ⟨cause, 0⟩, markedLength cs⟩

end Input

/-! ## Classes of characters -/

/-- A blank within a line. -/
def isBlank (c : Char) : Bool := c = ' ' || c = '\t'

/-- The end of a line. -/
def isBreak (c : Char) : Bool := c = '\n' || c = '\u2028' || c = '\u2029'

/-- Whether what follows is a blank, the end of a line or the end of the text. -/
def isGapNext (cs : List Char) : Bool := (cs.head?.map fun c => isBlank c || isBreak c).getD true

/-- Whether what follows is the end of a line or of the text. -/
def isLineEnd (cs : List Char) : Bool := (cs.head?.map isBreak).getD true

/-- A decimal digit. -/
def isDigit (c : Char) : Bool := '0' ≤ c && c ≤ '9'

/-- A character of names. -/
def isWord (c : Char) : Bool :=
  isDigit c || ('a' ≤ c && c ≤ 'z') || ('A' ≤ c && c ≤ 'Z') || c = '_' || c = '-'

/-- The value of a hexadecimal digit. -/
def hexDigit? (c : Char) : Option Nat :=
  if isDigit c then some (c.toNat - '0'.toNat)
  else if 'a' ≤ c && c ≤ 'f' then some (c.toNat - 'a'.toNat + 10)
  else if 'A' ≤ c && c ≤ 'F' then some (c.toNat - 'A'.toNat + 10)
  else none

/-- Whether the text starts with the mark of a document, three times `c`. -/
def isMark (c : Char) (cs : List Char) : Bool := cs.take 3 = [c, c, c] && isGapNext (cs.drop 3)

end PairDict.Yaml
