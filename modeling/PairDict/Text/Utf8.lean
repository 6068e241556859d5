/-! # Source text as characters and stray bytes

A program arrives as **bytes**, and its positions count **characters**.  The two
meet in `Glyph`: a glyph is either a character that the bytes spell in UTF-8, or
a single *stray* byte that begins no well-formed sequence there.  An overlong
form, a surrogate, a code above U+10FFFF and a sequence cut short all leave
their first byte stray, and reading goes on with the byte after it.

Reading is total and loses nothing: the bytes of the glyphs, put together in
order, are the bytes that were read.
-/
namespace PairDict

/-- One unit of text, as positions count it. -/
inductive Glyph where
  /-- A character spelled by one to four bytes. -/
  | char (c : Char)
  /-- A byte that starts no character. -/
  | stray (b : UInt8)
  deriving DecidableEq, Repr, Inhabited

namespace Glyph

/-- The bytes that spell the glyph. -/
def bytes : Glyph → List UInt8
  | .char c => String.utf8EncodeChar c
  | .stray b => [b]

/-- The character, if the glyph is one. -/
def char? : Glyph → Option Char
  | .char c => some c
  | .stray _ => none

/-- Whether the glyph is the character `c`. -/
def isChar (g : Glyph) (c : Char) : Bool := g == .char c

end Glyph

namespace Utf8

/-- The character that stands at the front of `bs`, if one does.  No character
needs more than four bytes. -/
def front? (bs : List UInt8) : Option Char :=
  ByteArray.utf8DecodeChar? ⟨(bs.take 4).toArray⟩ 0

/-- The glyphs of a byte string whose first `skip` bytes belong to a character
that was already read. -/
def decodeAfter : Nat → List UInt8 → List Glyph
  | _, [] => []
  | skip + 1, _ :: bs => decodeAfter skip bs
  | 0, b :: bs =>
    match front? (b :: bs) with
    | some c => .char c :: decodeAfter (c.utf8Size - 1) bs
    | none => .stray b :: decodeAfter 0 bs

/-- The glyphs that a byte string holds. -/
def decode (bs : List UInt8) : List Glyph := decodeAfter 0 bs

/-- The bytes of a list of glyphs. -/
def encode (gs : List Glyph) : List UInt8 := gs.flatMap Glyph.bytes

/-- The bytes of a text. -/
def ofString (s : String) : List UInt8 := s.toList.flatMap String.utf8EncodeChar

/-- A character at the front of a byte string is spelled there. -/
theorem front?_eq_some {bs : List UInt8} {c : Char} (h : front? bs = some c) :
    ∃ rest, bs = String.utf8EncodeChar c ++ rest := by
  obtain ⟨l, hl⟩ := ByteArray.exists_of_utf8DecodeChar?_eq_some h
  have hl' := congrArg (fun b => b.data.toList) hl
  simp only [ByteArray.data_append, List.data_toByteArray, Array.toList_append] at hl'
  exact ⟨l.data.toList ++ bs.drop 4, by rw [← List.append_assoc, ← hl', List.take_append_drop]⟩

theorem encode_decodeAfter (skip : Nat) (bs : List UInt8) :
    encode (decodeAfter skip bs) = bs.drop skip := by
  fun_induction decodeAfter skip bs with
  | case1 => simp [encode]
  | case2 skip b bs ih => simpa using ih
  | case3 b bs c h ih =>
    obtain ⟨rest, hr⟩ := front?_eq_some h
    have hlen : (String.utf8EncodeChar c).length = c.utf8Size := String.length_utf8EncodeChar c
    have hdrop : bs.drop (c.utf8Size - 1) = rest := by
      have := congrArg (List.drop c.utf8Size) hr
      rw [List.drop_append_of_le_length (Nat.le_of_eq hlen.symm), ← hlen, List.drop_length] at this
      rw [← List.drop_succ_cons, Nat.sub_add_cancel (Char.utf8Size_pos c), ← hlen]
      simpa using this
    simp only [encode] at ih
    rw [encode, List.flatMap_cons, ih, hdrop, List.drop_zero, hr, Glyph.bytes]
  | case4 b bs h ih => simpa [encode, Glyph.bytes] using ih

/-- Reading loses nothing. -/
theorem encode_decode (bs : List UInt8) : encode (decode bs) = bs := by
  simpa [decode] using encode_decodeAfter 0 bs

/-- The characters of a list of glyphs, if none of them is a stray byte. -/
def chars? : List Glyph → Option (List Char)
  | [] => some []
  | .char c :: gs => (chars? gs).map (c :: ·)
  | .stray _ :: _ => none

/-- The text that a byte string spells, if it is well-formed. -/
def toString? (bs : List UInt8) : Option String :=
  (chars? (decode bs)).map String.ofList

/-- The text that a byte string spells, with a replacement character for every stray
byte. -/
def toStringLossy (bs : List UInt8) : String :=
  .ofList ((decode bs).map fun g => g.char?.getD '\ufffd')

end Utf8

end PairDict
