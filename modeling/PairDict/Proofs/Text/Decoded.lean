import PairDict.Text.Utf8

/-! # Where bytes can be cut

Glyphs are read off bytes from the left, and a character may take several bytes.
Cutting bytes in two therefore need not cut their glyphs in two, but it does

* **behind a character** that the first part spells (`decode_encodeChar_append`), and
* **before a byte below 128**, which never belongs to a longer character
  (`decode_append_of_lt`), whatever stands before it.

In the other direction glyphs can be cut anywhere: a part of glyphs that were read is
what is read off its own bytes (`Decoded`).  In such glyphs a byte below 128 is always
a character of its own and never stray (`Decoded.eq_char_of_mem_bytes`).
-/
namespace PairDict

namespace Utf8

variable {bs rest : List UInt8} {b : UInt8} {c : Char} {gs gs' : List Glyph}

/-! ## The front of a byte string -/

/-- A character is found where it is spelled, whatever follows. -/
theorem front?_encodeChar_append (c : Char) (rest : List UInt8) :
    front? (String.utf8EncodeChar c ++ rest) = some c := by
  have hlen : (String.utf8EncodeChar c).length ≤ 4 := by
    rw [String.length_utf8EncodeChar]
    exact Char.utf8Size_le_four c
  have hbytes : ∀ bs bs' : List UInt8,
      (⟨(bs ++ bs').toArray⟩ : ByteArray) = bs.toByteArray ++ bs'.toByteArray := by
    intro bs bs'
    ext1
    simp [ByteArray.data_append, List.data_toByteArray]
  rw [front?, List.take_append, List.take_of_length_le hlen, hbytes]
  exact ByteArray.utf8DecodeChar?_utf8EncodeChar_append

theorem front?_eq_some_iff : front? bs = some c ↔ String.utf8EncodeChar c <+: bs := by
  constructor
  · intro h
    obtain ⟨rest, rfl⟩ := front?_eq_some h
    exact List.prefix_append _ _
  · rintro ⟨rest, rfl⟩
    exact front?_encodeChar_append c rest

theorem decodeAfter_eq_decode_drop (skip : Nat) (bs : List UInt8) :
    decodeAfter skip bs = decode (bs.drop skip) := by
  induction skip generalizing bs with
  | zero => rfl
  | succ skip ih =>
    cases bs with
    | nil => rfl
    | cons b bs => exact ih bs

/-- **Behind a character bytes can be cut.** -/
theorem decode_encodeChar_append (c : Char) (rest : List UInt8) :
    decode (String.utf8EncodeChar c ++ rest) = .char c :: decode rest := by
  have hlen : (String.utf8EncodeChar c).length = c.utf8Size := String.length_utf8EncodeChar c
  have hfront : front? (String.utf8EncodeChar c ++ rest) = some c := front?_encodeChar_append c rest
  cases hbytes : String.utf8EncodeChar c with
  | nil =>
    rw [hbytes] at hlen
    have hpos : 0 < c.utf8Size := Char.utf8Size_pos c
    rw [← hlen] at hpos
    cases hpos
  | cons b bs =>
    rw [hbytes] at hfront hlen
    rw [List.cons_append] at hfront ⊢
    have hskip : c.utf8Size - 1 = bs.length := by
      rw [← hlen]
      rfl
    rw [decode, decodeAfter, hfront]
    simp only [decodeAfter_eq_decode_drop, hskip, List.drop_left]

theorem decode_cons_of_front?_eq_none (h : front? (b :: bs) = none) :
    decode (b :: bs) = .stray b :: decode bs := by
  rw [decode, decodeAfter, h]
  rfl

/-- A byte string is empty, starts with a character, or starts with a stray byte. -/
theorem front_cases (bs : List UInt8) :
    bs = [] ∨ (∃ c rest, bs = String.utf8EncodeChar c ++ rest) ∨
      ∃ b rest, bs = b :: rest ∧ front? bs = none := by
  cases bs with
  | nil => exact .inl rfl
  | cons b bs =>
    cases h : front? (b :: bs) with
    | none => exact .inr (.inr ⟨b, bs, rfl, rfl⟩)
    | some c =>
      obtain ⟨rest, hrest⟩ := front?_eq_some h
      exact .inr (.inl ⟨c, rest, hrest⟩)

/-! ## Bytes below 128 -/

theorem encodeChar_of_le (h : c.val ≤ 127) : String.utf8EncodeChar c = [c.val.toUInt8] :=
  String.utf8EncodeChar_eq_singleton (Char.utf8Size_eq_one_iff.2 h)

/-- The bytes of a character above 127 are above 127. -/
theorem le_of_mem_encodeChar (hc : 127 < c.val) (hb : b ∈ String.utf8EncodeChar c) : 128 ≤ b := by
  have hor : ∀ x y : UInt8, 128 ≤ y → 128 ≤ x ||| y := by
    intro x y hy
    rw [UInt8.le_iff_toNat_le, UInt8.toNat_or] at *
    exact Nat.le_trans hy Nat.right_le_or
  have hne : c.utf8Size ≠ 1 := fun h => by
    have hle := Char.utf8Size_eq_one_iff.1 h
    exact absurd hc (UInt32.not_lt.2 hle)
  rcases Char.utf8Size_eq c with h | h | h | h
  · exact absurd h hne
  · rw [String.utf8EncodeChar_eq_cons_cons h] at hb
    simp only [List.mem_cons, List.not_mem_nil, or_false] at hb
    rcases hb with rfl | rfl <;> exact hor _ _ (by decide)
  · rw [String.utf8EncodeChar_eq_cons_cons_cons h] at hb
    simp only [List.mem_cons, List.not_mem_nil, or_false] at hb
    rcases hb with rfl | rfl | rfl <;> exact hor _ _ (by decide)
  · rw [String.utf8EncodeChar_eq_cons_cons_cons_cons h] at hb
    simp only [List.mem_cons, List.not_mem_nil, or_false] at hb
    rcases hb with rfl | rfl | rfl | rfl <;> exact hor _ _ (by decide)

/-- A byte below 128 spells a character by itself. -/
theorem encodeChar_ofUInt8 (h : b < 128) : String.utf8EncodeChar (Char.ofUInt8 b) = [b] := by
  have hval : (Char.ofUInt8 b).val = b.toUInt32 := rfl
  have hle : (Char.ofUInt8 b).val ≤ 127 := by
    rw [hval, UInt32.le_iff_toNat_le, UInt8.toNat_toUInt32]
    exact Nat.le_of_lt_succ (UInt8.lt_iff_toNat_lt.1 h)
  rw [encodeChar_of_le hle, hval, UInt8.toUInt8_toUInt32]

/-- It belongs to no other character. -/
theorem eq_ofUInt8_of_mem_encodeChar (h : b ∈ String.utf8EncodeChar c) (hb : b < 128) :
    c = Char.ofUInt8 b := by
  by_cases hc : c.val ≤ 127
  · rw [encodeChar_of_le hc, List.mem_singleton] at h
    apply Char.ext
    have hval : (Char.ofUInt8 b).val = b.toUInt32 := rfl
    rw [hval, h, ← UInt32.toNat_inj, UInt8.toNat_toUInt32, UInt32.toNat_toUInt8]
    exact (Nat.mod_eq_of_lt (Nat.lt_of_le_of_lt (UInt32.le_iff_toNat_le.1 hc) (by decide))).symm
  · exact absurd (le_of_mem_encodeChar (UInt32.not_le.1 hc) h) (UInt8.not_le.2 hb)

/-- What is stray stays stray if a byte below 128 follows somewhere. -/
theorem front?_append_eq_none (h : front? (b :: bs) = none) {b' : UInt8} (hb' : b' < 128)
    (rest : List UInt8) : front? (b :: bs ++ b' :: rest) = none := by
  refine Option.eq_none_iff_forall_ne_some.2 fun c hc => ?_
  have hprefix := front?_eq_some_iff.1 hc
  rcases List.prefix_or_prefix_of_prefix hprefix (List.prefix_append (b :: bs) (b' :: rest)) with
    hshort | ⟨tail, htail⟩
  · rw [front?_eq_some_iff.2 hshort] at h
    cases h
  · cases tail with
    | nil =>
      rw [List.append_nil] at htail
      have heq : String.utf8EncodeChar c <+: b :: bs := htail ▸ List.prefix_refl _
      rw [front?_eq_some_iff.2 heq] at h
      cases h
    | cons x tail =>
      -- the character would reach over `b'`, and has more than that one byte
      rw [← htail, List.prefix_append_right_inj, List.cons_prefix_cons] at hprefix
      obtain ⟨rfl, -⟩ := hprefix
      have hmem : x ∈ String.utf8EncodeChar c := by
        rw [← htail]
        exact List.mem_append_right _ List.mem_cons_self
      rw [eq_ofUInt8_of_mem_encodeChar hmem hb', encodeChar_ofUInt8 hb'] at htail
      have hlen := congrArg List.length htail
      simp only [List.length_append, List.length_cons, List.length_nil] at hlen
      omega

/-- **Before a byte below 128 bytes can be cut.** -/
theorem decode_append_of_lt (bs : List UInt8) (hb : b < 128) (rest : List UInt8) :
    decode (bs ++ b :: rest) = decode bs ++ decode (b :: rest) := by
  induction hn : bs.length using Nat.strongRecOn generalizing bs with
  | ind n ih =>
    rcases front_cases bs with rfl | ⟨c, tail, rfl⟩ | ⟨x, tail, rfl, hx⟩
    · rfl
    · have hlt : tail.length < n := by
        rw [← hn, List.length_append, String.length_utf8EncodeChar]
        have := Char.utf8Size_pos c
        omega
      rw [List.append_assoc, decode_encodeChar_append, decode_encodeChar_append, ih _ hlt tail rfl,
        List.cons_append]
    · have hlt : tail.length < n := by
        rw [← hn]
        exact Nat.lt_succ_self _
      have happ : front? (x :: (tail ++ b :: rest)) = none := front?_append_eq_none hx hb rest
      rw [decode_cons_of_front?_eq_none hx, List.cons_append, decode_cons_of_front?_eq_none happ,
        ih _ hlt tail rfl, List.cons_append]

theorem decode_cons_of_lt (hb : b < 128) (bs : List UInt8) :
    decode (b :: bs) = .char (Char.ofUInt8 b) :: decode bs := by
  have h := decode_encodeChar_append (Char.ofUInt8 b) bs
  rwa [encodeChar_ofUInt8 hb, List.singleton_append] at h

/-! ## The bytes of glyphs -/

@[simp] theorem encode_cons (g : Glyph) (gs : List Glyph) :
    encode (g :: gs) = g.bytes ++ encode gs :=
  List.flatMap_cons

@[simp] theorem encode_append (gs gs' : List Glyph) :
    encode (gs ++ gs') = encode gs ++ encode gs' :=
  List.flatMap_append

theorem encode_map_char (cs : List Char) :
    encode (cs.map .char) = ofString (.ofList cs) := by
  rw [encode, ofString, List.flatMap_map, String.toList_ofList]
  rfl

/-- The glyphs of a text are its characters, whatever follows. -/
theorem decode_ofString_append (s : String) (rest : List UInt8) :
    decode (ofString s ++ rest) = s.toList.map .char ++ decode rest := by
  rw [ofString]
  induction s.toList with
  | nil => rfl
  | cons c cs ih =>
    rw [List.flatMap_cons, List.append_assoc, decode_encodeChar_append, ih]
    rfl

/-- Glyphs that are read off their own bytes. -/
def Decoded (gs : List Glyph) : Prop := decode (encode gs) = gs

theorem decoded_decode (bs : List UInt8) : Decoded (decode bs) := by
  rw [Decoded, encode_decode]

/-- **Glyphs that were read can be cut anywhere.** -/
theorem Decoded.of_decode_eq_append (h : decode bs = gs ++ gs') : Decoded gs' := by
  induction gs generalizing bs with
  | nil =>
    rw [List.nil_append] at h
    exact h ▸ decoded_decode bs
  | cons g gs ih =>
    rcases front_cases bs with rfl | ⟨c, tail, rfl⟩ | ⟨x, tail, rfl, hx⟩
    · cases h
    · rw [decode_encodeChar_append, List.cons_append] at h
      exact ih (List.cons.inj h).2
    · rw [decode_cons_of_front?_eq_none hx, List.cons_append] at h
      exact ih (List.cons.inj h).2

theorem Decoded.of_append (h : Decoded (gs ++ gs')) : Decoded gs' :=
  Decoded.of_decode_eq_append h

theorem Decoded.tail {g : Glyph} (h : Decoded (g :: gs)) : Decoded gs :=
  Decoded.of_append (show Decoded ([g] ++ gs) from h)

/-- A stray byte stays stray if less follows. -/
theorem front?_eq_none_of_append (h : front? (bs ++ rest) = none) : front? bs = none := by
  refine Option.eq_none_iff_forall_ne_some.2 fun c hc => ?_
  have hprefix := (front?_eq_some_iff.1 hc).trans (List.prefix_append bs rest)
  rw [front?_eq_some_iff.2 hprefix] at h
  cases h

theorem Decoded.of_decode_encode_append (h : decode (encode gs ++ rest) = gs ++ gs') :
    Decoded gs := by
  induction gs with
  | nil => rfl
  | cons g gs ih =>
    rw [encode_cons, List.append_assoc] at h
    rcases front_cases (g.bytes ++ (encode gs ++ rest)) with hnil | ⟨c, tail, hbs⟩ |
      ⟨x, tail, hbs, hx⟩
    · rw [hnil] at h
      cases h
    · rw [hbs, decode_encodeChar_append, List.cons_append] at h
      obtain ⟨rfl, htail⟩ := List.cons.inj h
      obtain rfl : tail = encode gs ++ rest := (List.append_cancel_left hbs).symm
      rw [Decoded, encode_cons, Glyph.bytes, decode_encodeChar_append, ih htail]
    · rw [hbs, decode_cons_of_front?_eq_none (hbs ▸ hx), List.cons_append] at h
      obtain ⟨rfl, htail⟩ := List.cons.inj h
      obtain rfl : encode gs ++ rest = tail := (List.cons.inj hbs).2
      have happ : front? (x :: encode gs ++ rest) = none := hx
      have hfront : front? (x :: encode gs) = none := front?_eq_none_of_append happ
      rw [Decoded, encode_cons, Glyph.bytes, List.singleton_append,
        decode_cons_of_front?_eq_none hfront, ih htail]

theorem Decoded.left (h : Decoded (gs ++ gs')) : Decoded gs := by
  rw [Decoded, encode_append] at h
  exact .of_decode_encode_append h

theorem le_of_stray_mem_decode (h : Glyph.stray b ∈ decode bs) : 128 ≤ b := by
  obtain ⟨before, after, hsplit⟩ := List.append_of_mem h
  have hcut : decode (encode (.stray b :: after)) = .stray b :: after :=
    Decoded.of_decode_eq_append hsplit
  refine UInt8.not_lt.1 fun hb => ?_
  rw [encode_cons, Glyph.bytes, List.singleton_append, decode_cons_of_lt hb] at hcut
  cases hcut

/-- **In glyphs that were read, a byte below 128 is a character.** -/
theorem Decoded.eq_char_of_mem_bytes (h : Decoded gs) {g : Glyph} (hg : g ∈ gs) (hb : b ∈ g.bytes)
    (hlt : b < 128) : g = .char (Char.ofUInt8 b) := by
  cases g with
  | char c => exact congrArg Glyph.char (eq_ofUInt8_of_mem_encodeChar hb hlt)
  | stray x =>
    rw [Glyph.bytes, List.mem_singleton] at hb
    rw [← h] at hg
    exact absurd (le_of_stray_mem_decode hg) (UInt8.not_le.2 (hb ▸ hlt))

/-- A text stands at the front of glyphs if and only if its bytes stand at the front of
theirs. -/
theorem prefix_encode_iff (h : Decoded gs) (cs : List Char) :
    ofString (.ofList cs) <+: encode gs ↔ cs.map .char <+: gs := by
  constructor
  · rintro ⟨rest, hrest⟩
    have hgs : decode (ofString (.ofList cs) ++ rest) = gs := by
      rw [hrest]
      exact h
    rw [decode_ofString_append, String.toList_ofList] at hgs
    exact ⟨decode rest, hgs⟩
  · rintro ⟨rest, rfl⟩
    rw [encode_append, encode_map_char]
    exact List.prefix_append _ _

end Utf8

end PairDict
