import PairDict.Proofs.Grammar.Derivation
import PairDict.Proofs.Lexeme.Munch

/-! # Layouts

A **layout** of a list of words is a text that spells these words, one after the other,
with a gap before the first, between any two, and after the last.  Gaps between words are
not empty, so that no two words run into each other; the first gap and the last may be, and
the last may end in a comment without a newline.

Whatever the gaps are, the words that are read from a layout are the words that it spells
(`Layout.spells`).  Every list of words that can be spelled has a layout
(`Layout.spread`), and the words that are read from any source can be spelled
(`Source.spellable_of_mem`).
-/
namespace PairDict

namespace Scan

/-- The texts of words, each with a gap after it that is empty at most at the very end. -/
inductive Spaced : List Word → List UInt8 → Prop where
  | nil {g} : LastGap g → Spaced [] g
  | cons {w g ws bs} : w.Spellable → Gap g → (g ≠ [] ∨ ws = []) → Spaced ws bs →
      Spaced (w :: ws) (w.bytes ++ (g ++ bs))

/-- The text is a gap, and then words with gaps after them. -/
def Layout (ws : List Word) (bytes : List UInt8) : Prop :=
  ∃ g bs, Gap g ∧ Spaced ws bs ∧ bytes = g ++ bs

variable {g g' bs bytes : List UInt8} {w : Word} {ws : List Word}

/-! ## Where a word meets a gap -/

theorem ends_char_cons {c : Char} (h : isBlank c = true ∨ c = '/') (gs : List Glyph) :
    Ends (.char c :: gs) := by
  rintro _ _ ⟨⟩
  exact h

/-- No word goes on into a gap. -/
theorem Gap.ends (h : Gap g) (hne : g ≠ []) (bs : List UInt8) : Ends (Utf8.decode (g ++ bs)) := by
  rw [decode_gap_append h]
  cases h with
  | nil => exact absurd rfl hne
  | blank hb _ =>
    rw [decode_blank hb]
    exact ends_char_cons (.inl hb) _
  | comment _ _ =>
    rw [decode_comment]
    exact ends_char_cons (.inr rfl) _

theorem LastGap.ends (h : LastGap g) : Ends (Utf8.decode g) := by
  cases h with
  | closed h =>
    by_cases hne : g = []
    · subst hne
      exact nofun
    · exact List.append_nil g ▸ h.ends hne []
  | @unclosed g body h _ =>
    by_cases hne : g = []
    · subst hne
      rw [List.nil_append, Utf8.decode_cons_of_lt (by decide)]
      exact ends_char_cons (.inr rfl) _
    · exact h.ends hne _

theorem Gap.append (h : Gap g) (h' : Gap g') : Gap (g ++ g') := by
  induction h with
  | nil => exact h'
  | blank hb _ ih => exact .blank hb ih
  | comment hbody _ ih =>
    rw [List.cons_append, List.cons_append, List.append_assoc, List.cons_append]
    exact .comment hbody ih

theorem Gap.append_last (h : Gap g) (h' : LastGap g') : LastGap (g ++ g') := by
  cases h' with
  | closed h' => exact .closed (h.append h')
  | unclosed h' hbody =>
    rw [← List.append_assoc]
    exact .unclosed (h.append h') hbody

/-- No gap starts with a word. -/
theorem splitGap_spelled (h : w.Spellable) (gs : List Glyph) :
    (splitGap false (w.literal.toList.map .char ++ gs)).2 = w.literal.toList.map .char ++ gs := by
  obtain ⟨c, cs, heq, -⟩ := h.pattern.shape
  obtain ⟨hblank, hslash⟩ := h.pattern.plain c (heq ▸ List.mem_cons_self)
  have hsatisfies : ¬ Glyph.satisfies isBlank (.char c) = true :=
    Bool.eq_false_iff.1 (show Glyph.satisfies isBlank (.char c) = false from hblank)
  have hchar : Glyph.isChar (.char c) '/' = false :=
    isChar_eq_false fun h => hslash (Glyph.char.inj h)
  rw [heq, List.map_cons, List.cons_append, splitGap, if_neg Bool.false_ne_true, if_neg hsatisfies,
    hchar, Bool.false_and, if_neg Bool.false_ne_true]

/-! ## Layouts are read -/

theorem streamFrom_spelled (hw : w.Spellable) (hg : Gap g) (hends : Ends (Utf8.decode bs))
    (pos : Pos) :
    ∃ p q, streamFrom pos (Utf8.decode (g ++ (w.bytes ++ bs))) =
      .cons ⟨w, p⟩ (streamFrom q (Utf8.decode bs)) := by
  rw [decode_gap_append hg, Word.bytes, Utf8.decode_ofString_append]
  have hsplit : (splitGap false (Utf8.decode g ++
      (w.literal.toList.map .char ++ Utf8.decode bs))).2 =
        w.literal.toList.map .char ++ Utf8.decode bs := by
    rw [splitGap_append_gap hg, splitGap_spelled hw]
  exact ⟨_, _, streamFrom_word (hsplit ▸ read_spelled hw hends)⟩

/-- The words after a gap are read, wherever the gap starts. -/
theorem Spaced.spells (h : Spaced ws bs) : ∀ {g : List UInt8}, Gap g → ∀ pos : Pos,
    ∃ q, Spells ws (streamFrom pos (Utf8.decode (g ++ bs))) (.eof q) := by
  induction h with
  | nil hlast => exact fun hg pos => ⟨_, streamFrom_eof (splitGap_lastGap (hg.append_last hlast))⟩
  | @cons w gap ws bs hw hgap hsep hrest ih =>
    intro g hg pos
    have hends : Ends (Utf8.decode (gap ++ bs)) := by
      rcases hsep with hne | rfl
      · exact hgap.ends hne bs
      · cases hrest with
        | nil hlast => exact (hgap.append_last hlast).ends
    obtain ⟨p, q, hstream⟩ := streamFrom_spelled hw hg hends pos
    obtain ⟨q', hspells⟩ := ih hgap q
    exact ⟨q', p, _, hstream, hspells⟩

/-- **A layout of words is read as these words.** -/
theorem Layout.spells (h : Layout ws bytes) (name : String) :
    ∃ q, Spells ws (Source.mk name bytes none).tokens (.eof q) := by
  obtain ⟨g, bs, hg, hspaced, rfl⟩ := h
  exact hspaced.spells hg (.start name)

/-! ## Words that can be spelled -/

/-- The words with a blank after each of them. -/
def spread (ws : List Word) : List UInt8 := ws.flatMap fun w => w.bytes ++ [' '.toUInt8]

/-- **Words that can be spelled have a layout.** -/
theorem Layout.spread (h : ∀ w ∈ ws, w.Spellable) : Layout ws (spread ws) := by
  have hblank : Gap [' '.toUInt8] := .blank (by decide) .nil
  refine ⟨[], Scan.spread ws, .nil, ?_, rfl⟩
  induction ws with
  | nil => exact .nil (.closed .nil)
  | cons w ws ih =>
    rw [List.forall_mem_cons] at h
    have hcons := Spaced.cons h.1 hblank (.inl (List.cons_ne_nil _ _)) (ih h.2)
    rwa [← List.append_assoc] at hcons

theorem Munch.spellable {rest : List UInt8} (h : Munch bytes ws rest) : ∀ w ∈ ws, w.Spellable := by
  induction h with
  | stop => exact nofun
  | word _ hlongest _ ih =>
    exact List.forall_mem_cons.2 ⟨Word.spellable_iff_pattern.2 hlongest.pattern, ih⟩

end Scan

/-- **The words of a source can be spelled.** -/
theorem Source.spellable_of_mem (src : Source) :
    ∀ l ∈ src.tokens.lexemes, l.word.Spellable := by
  obtain ⟨name, bytes, failure⟩ := src
  cases failure with
  | some cause => exact nofun
  | none =>
    obtain ⟨rest, hmunch, -⟩ :=
      Scan.streamFrom_munches (.start name) (Utf8.decode bytes) (Utf8.decoded_decode bytes)
    exact fun l hl => hmunch.spellable l.word (List.mem_map_of_mem hl)

end PairDict
