import PairDict.Lexeme.Scan
import PairDict.Proofs.Text.Decoded

/-! # Gaps, byte by byte

A gap between two tokens is a run of blanks and comments, and a comment runs from `//` to
the next newline, whatever bytes stand between (`Gap`).  Only at the end of a text a
comment may go on without one (`LastGap`).

The reader cuts a text where its gap ends, and these are the gaps that it finds:

* a gap that stands at the front is passed over, as far as it goes (`splitGap_append_gap`);
* what is passed over is a gap, and neither a blank nor a comment stands behind it
  (`splitGap_spec`).
-/
namespace PairDict

namespace Scan

/-- The byte that ends a line. -/
def newline : UInt8 := '\n'.toUInt8

/-- The byte that starts a comment, twice. -/
def slash : UInt8 := '/'.toUInt8

/-- Blanks, and comments with the newline that ends them. -/
inductive Gap : List UInt8 → Prop where
  | nil : Gap []
  | blank {b g} : isBlank (Char.ofUInt8 b) = true → Gap g → Gap (b :: g)
  | comment {body g} : newline ∉ body → Gap g → Gap (slash :: slash :: (body ++ newline :: g))

/-- A gap at the end of a text, where the last comment need not end. -/
inductive LastGap : List UInt8 → Prop where
  | closed {g} : Gap g → LastGap g
  | unclosed {g body} : Gap g → newline ∉ body → LastGap (g ++ slash :: slash :: body)

/-- Of the texts with `front`, one starts a gap. -/
def AtGap (front : List Char → Prop) : Prop :=
  (∃ c, isBlank c = true ∧ front [c]) ∨ front ['/', '/']

variable {g bs body : List UInt8} {gs gs' : List Glyph}

theorem LastGap.blank {b : UInt8} (hb : isBlank (Char.ofUInt8 b) = true) (h : LastGap g) :
    LastGap (b :: g) := by
  cases h with
  | closed h => exact .closed (.blank hb h)
  | unclosed h hbody => exact .unclosed (.blank hb h) hbody

theorem LastGap.comment (hbody : newline ∉ body) (h : LastGap g) :
    LastGap (slash :: slash :: (body ++ newline :: g)) := by
  cases h with
  | closed h => exact .closed (.comment hbody h)
  | @unclosed g body' h hbody' =>
    have hgap : LastGap (slash :: slash :: (body ++ newline :: g) ++ slash :: slash :: body') :=
      .unclosed (.comment hbody h) hbody'
    simp only [List.cons_append, List.append_assoc] at hgap
    exact hgap

/-! ## Blanks and comments as glyphs -/

/-- Blanks are bytes below 128. -/
theorem blank_cases {c : Char} (h : isBlank c = true) :
    ∃ b : UInt8, b < 128 ∧ c = Char.ofUInt8 b := by
  simp only [isBlank, Bool.or_eq_true, decide_eq_true_eq] at h
  rcases h with ((((rfl | rfl) | rfl) | rfl) | rfl) | rfl
  · exact ⟨32, by decide, rfl⟩
  · exact ⟨9, by decide, rfl⟩
  · exact ⟨13, by decide, rfl⟩
  · exact ⟨10, by decide, rfl⟩
  · exact ⟨12, by decide, rfl⟩
  · exact ⟨11, by decide, rfl⟩

theorem ofUInt8_injective {b b' : UInt8} (h : Char.ofUInt8 b = Char.ofUInt8 b') : b = b' := by
  have hval : b.toUInt32 = b'.toUInt32 := congrArg Char.val h
  rw [← UInt32.toNat_inj, UInt8.toNat_toUInt32, UInt8.toNat_toUInt32] at hval
  exact UInt8.toNat_inj.1 hval

theorem lt_of_isBlank {b : UInt8} (h : isBlank (Char.ofUInt8 b) = true) : b < 128 := by
  obtain ⟨b', hlt, heq⟩ := blank_cases h
  exact ofUInt8_injective heq ▸ hlt

theorem decode_blank {b : UInt8} (h : isBlank (Char.ofUInt8 b) = true) (bs : List UInt8) :
    Utf8.decode (b :: bs) = .char (Char.ofUInt8 b) :: Utf8.decode bs :=
  Utf8.decode_cons_of_lt (lt_of_isBlank h) bs

/-- The body of a comment is read apart from what follows its newline. -/
theorem decode_comment (body bs : List UInt8) :
    Utf8.decode (slash :: slash :: (body ++ newline :: bs)) =
      .char '/' :: .char '/' :: (Utf8.decode body ++ .char '\n' :: Utf8.decode bs) := by
  have hslash : slash < 128 := by decide
  have hnewline : newline < 128 := by decide
  rw [Utf8.decode_cons_of_lt hslash, Utf8.decode_cons_of_lt hslash,
    Utf8.decode_append_of_lt body hnewline, Utf8.decode_cons_of_lt hnewline]
  rfl

/-- A newline that was read stands in the bytes. -/
theorem newline_not_mem_decode (h : newline ∉ body) : Glyph.char '\n' ∉ Utf8.decode body := by
  intro hmem
  refine h ?_
  rw [← Utf8.encode_decode body]
  exact List.mem_flatMap.2 ⟨_, hmem, by decide⟩

/-! ## Gaps are passed over -/

/-- A blank belongs to the gap. -/
theorem splitGap_blank {c : Char} (h : isBlank c = true) (gs : List Glyph) :
    splitGap false (.char c :: gs) = (.char c :: (splitGap false gs).1, (splitGap false gs).2) := by
  have hsatisfies : Glyph.satisfies isBlank (.char c) = true := h
  rw [splitGap, if_neg Bool.false_ne_true, if_pos hsatisfies]

/-- Two slashes start a comment. -/
theorem splitGap_slashes (gs : List Glyph) :
    splitGap false (.char '/' :: .char '/' :: gs) =
      (.char '/' :: .char '/' :: (splitGap true gs).1, (splitGap true gs).2) := rfl

/-- In a comment everything is passed over. -/
theorem splitGap_inside (g : Glyph) (gs : List Glyph) :
    splitGap true (g :: gs) =
      (g :: (splitGap (!g.isChar '\n') gs).1, (splitGap (!g.isChar '\n') gs).2) := by
  rw [splitGap, if_pos rfl]

theorem isChar_eq_false {g : Glyph} {c : Char} (h : g ≠ .char c) : g.isChar c = false :=
  beq_false_of_ne h

/-- A comment ends with its line. -/
theorem splitGap_comment (h : .char '\n' ∉ gs) (gs' : List Glyph) :
    splitGap true (gs ++ .char '\n' :: gs') =
      (gs ++ .char '\n' :: (splitGap false gs').1, (splitGap false gs').2) := by
  induction gs with
  | nil => exact splitGap_inside _ _
  | cons g gs ih =>
    have hg : g ≠ .char '\n' := fun hg => h (hg ▸ List.mem_cons_self)
    have hgs : .char '\n' ∉ gs := fun hmem => h (List.mem_cons_of_mem g hmem)
    rw [List.cons_append, splitGap_inside, isChar_eq_false hg, Bool.not_false, ih hgs]
    rfl

/-- A comment that does not end is passed over as a whole. -/
theorem splitGap_unclosed (h : .char '\n' ∉ gs) : splitGap true gs = (gs, []) := by
  induction gs with
  | nil => rfl
  | cons g gs ih =>
    have hg : g ≠ .char '\n' := fun hg => h (hg ▸ List.mem_cons_self)
    have hgs : .char '\n' ∉ gs := fun hmem => h (List.mem_cons_of_mem g hmem)
    rw [splitGap_inside, isChar_eq_false hg, Bool.not_false, ih hgs]

/-- **A gap at the front is passed over.** -/
theorem splitGap_append_gap (h : Gap g) (gs : List Glyph) :
    (splitGap false (Utf8.decode g ++ gs)).2 = (splitGap false gs).2 := by
  induction h with
  | nil => rfl
  | blank hb _ ih => rw [decode_blank hb, List.cons_append, splitGap_blank hb, ih]
  | comment hbody _ ih =>
    rw [decode_comment, List.cons_append, List.cons_append, splitGap_slashes, List.append_assoc,
      List.cons_append, splitGap_comment (newline_not_mem_decode hbody), ih]

/-- A gap can be cut off the bytes. -/
theorem decode_gap_append (h : Gap g) (bs : List UInt8) :
    Utf8.decode (g ++ bs) = Utf8.decode g ++ Utf8.decode bs := by
  induction h with
  | nil => rfl
  | blank hb _ ih => rw [List.cons_append, decode_blank hb, decode_blank hb, ih, List.cons_append]
  | comment hbody _ ih =>
    simp only [List.cons_append, List.append_assoc, decode_comment, ih]

theorem splitGap_lastGap (h : LastGap g) : (splitGap false (Utf8.decode g)).2 = [] := by
  cases h with
  | closed h =>
    have hsplit := splitGap_append_gap h []
    rwa [List.append_nil] at hsplit
  | @unclosed g body h hbody =>
    have hslash : slash < 128 := by decide
    rw [decode_gap_append h, splitGap_append_gap h, Utf8.decode_cons_of_lt hslash,
      Utf8.decode_cons_of_lt hslash]
    exact congrArg Prod.snd (splitGap_unclosed (newline_not_mem_decode hbody))

/-! ## What is passed over is a gap -/

/-- The bytes `bs`, with `rest` behind them, start within a comment: it ends in a newline
with a gap behind it, or it ends the text. -/
inductive InComment : List UInt8 → List Glyph → Prop where
  | closed {body g : List UInt8} {rest : List Glyph} : newline ∉ body → LastGap g →
      (rest ≠ [] → Gap g) → InComment (body ++ newline :: g) rest
  | unclosed {body : List UInt8} : newline ∉ body → InComment body []

theorem InComment.cons {rest : List Glyph} {g : Glyph} (hg : newline ∉ g.bytes)
    (h : InComment bs rest) : InComment (g.bytes ++ bs) rest := by
  cases h with
  | @closed body gap _ hbody hlast hgap =>
    rw [← List.append_assoc]
    exact .closed (fun hmem => (List.mem_append.1 hmem).elim hg hbody) hlast hgap
  | unclosed hbody => exact .unclosed fun hmem => (List.mem_append.1 hmem).elim hg hbody

/-- Two slashes in front of the inside of a comment make it a gap. -/
theorem InComment.gap {rest : List Glyph} (h : InComment bs rest) :
    LastGap (slash :: slash :: bs) ∧ (rest ≠ [] → Gap (slash :: slash :: bs)) := by
  cases h with
  | closed hbody hlast hgap => exact ⟨hlast.comment hbody, fun hne => .comment hbody (hgap hne)⟩
  | unclosed hbody =>
    exact ⟨LastGap.unclosed .nil hbody, fun hne => absurd rfl hne⟩

theorem newline_not_mem_bytes {g : Glyph} (h : Utf8.Decoded (g :: gs)) (hg : g ≠ .char '\n') :
    newline ∉ g.bytes := fun hmem =>
  hg (h.eq_char_of_mem_bytes List.mem_cons_self hmem (by decide))

/-- What stands at the front of glyphs is a gap, or it is not passed over. -/
def GapFound (gap rest : List Glyph) : Prop :=
  LastGap (Utf8.encode gap) ∧ (rest ≠ [] → Gap (Utf8.encode gap)) ∧
    ¬ AtGap fun cs => cs.map Glyph.char <+: rest

theorem gapFound_nil : GapFound [] [] := by
  refine ⟨.closed .nil, fun _ => .nil, ?_⟩
  rintro (⟨c, -, h⟩ | h)
  · exact absurd (List.prefix_nil.1 h) (List.cons_ne_nil _ _)
  · exact absurd (List.prefix_nil.1 h) (List.cons_ne_nil _ _)

/-- **The reader passes over a gap, and stops where there is none.** -/
theorem splitGap_spec : ∀ (gs : List Glyph), Utf8.Decoded gs →
    (GapFound (splitGap false gs).1 (splitGap false gs).2) ∧
      (InComment (Utf8.encode (splitGap true gs).1) (splitGap true gs).2 ∧
        ¬ AtGap fun cs => cs.map Glyph.char <+: (splitGap true gs).2)
  | [], _ => ⟨gapFound_nil, .unclosed List.not_mem_nil, gapFound_nil.2.2⟩
  | g :: gs, h => by
    have htail : Utf8.Decoded gs := h.tail
    obtain ⟨⟨hlast, hgap, hstop⟩, hin, hstop'⟩ := splitGap_spec gs htail
    constructor
    · -- outside of a comment: a blank, the start of a comment, or the end of the gap
      by_cases hblank : g.satisfies isBlank = true
      · cases g with
        | stray b => cases hblank
        | char c =>
          obtain ⟨b, hb, rfl⟩ := blank_cases hblank
          rw [splitGap_blank hblank]
          refine ⟨?_, fun hne => ?_, hstop⟩
          · rw [Utf8.encode_cons, Glyph.bytes, Utf8.encodeChar_ofUInt8 hb]
            exact hlast.blank hblank
          · rw [Utf8.encode_cons, Glyph.bytes, Utf8.encodeChar_ofUInt8 hb]
            exact .blank hblank (hgap hne)
      · by_cases hslash : g = .char '/' ∧ gs.head? = some (.char '/')
        · obtain ⟨rfl, hhead⟩ := hslash
          obtain ⟨gs', rfl⟩ := List.head?_eq_some_iff.1 hhead
          have htail' : Utf8.Decoded gs' := htail.tail
          rw [splitGap_slashes]
          obtain ⟨-, hin', hstop''⟩ := splitGap_spec gs' htail'
          obtain ⟨hlast', hgap'⟩ := hin'.gap
          exact ⟨hlast', hgap', hstop''⟩
        · have hsplit : splitGap false (g :: gs) = ([], g :: gs) := by
            have hcomment : ¬ (g.isChar '/' && gs.head? == some (.char '/')) = true := by
              rw [Bool.and_eq_true, beq_iff_eq]
              exact fun hc => hslash ⟨beq_iff_eq.1 hc.1, hc.2⟩
            rw [splitGap, if_neg Bool.false_ne_true, if_neg hblank, if_neg hcomment]
          rw [hsplit]
          refine ⟨.closed .nil, fun _ => .nil, ?_⟩
          rintro (⟨c, hc, hfront⟩ | hfront)
          · rw [List.map_singleton, List.cons_prefix_cons] at hfront
            exact hblank (hfront.1 ▸ hc)
          · rw [List.map_cons, List.map_singleton, List.cons_prefix_cons] at hfront
            obtain ⟨rfl, gs', rfl⟩ := hfront
            exact hslash ⟨rfl, rfl⟩
    · -- inside of a comment: its end, or one more glyph
      rw [splitGap_inside]
      by_cases hg : g = .char '\n'
      · subst hg
        refine ⟨?_, hstop⟩
        have hin : InComment ([] ++ newline :: Utf8.encode (splitGap false gs).1)
            (splitGap false gs).2 :=
          .closed List.not_mem_nil hlast hgap
        exact hin
      · rw [isChar_eq_false hg, Bool.not_false]
        exact ⟨hin.cons (newline_not_mem_bytes h hg), hstop'⟩

end Scan

end PairDict
