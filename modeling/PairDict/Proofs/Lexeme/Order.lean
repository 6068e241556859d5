import PairDict.Proofs.Grammar.Derivation
import PairDict.Proofs.Lexeme.Munch

/-! # Positions tell the lexemes of a source apart

Positions are ordered as they are read, by lines and then by columns (`Pos.Before`).  Every
word takes at least one glyph, so from one lexeme to the next, and to the end of the source
or to the failure that ends it, the positions increase (`streamFrom_before`,
`streamFrom_pairwise`).  A position that a stream reports therefore belongs to one place of
it only (`Source.place_unique`).
-/
namespace PairDict

namespace Pos

/-- The one position is read before the other. -/
def Before (p q : Pos) : Prop := p.line < q.line ∨ (p.line = q.line ∧ p.col < q.col)

variable {p q r : Pos}

theorem Before.trans (h : p.Before q) (h' : q.Before r) : p.Before r := by
  unfold Before at *
  omega

theorem not_before_self (p : Pos) : ¬ p.Before p := by
  unfold Before
  omega

theorem before_next (p : Pos) (g : Glyph) : p.Before (p.next g) := by
  unfold next
  split
  · exact .inl (Int.lt_succ _)
  · exact .inr ⟨rfl, Int.lt_succ _⟩

theorem advance_cons (p : Pos) (g : Glyph) (gs : List Glyph) :
    p.advance (g :: gs) = (p.next g).advance gs := rfl

theorem before_advance (p : Pos) {gs : List Glyph} (h : gs ≠ []) : p.Before (p.advance gs) := by
  induction gs generalizing p with
  | nil => exact absurd rfl h
  | cons g gs ih =>
    rw [advance_cons]
    by_cases hgs : gs = []
    · subst hgs
      exact before_next p g
    · exact (before_next p g).trans (ih (p.next g) hgs)

/-- What is before a position is before all that can be reached from there. -/
theorem Before.advance (h : p.Before q) (gs : List Glyph) : p.Before (q.advance gs) := by
  by_cases hgs : gs = []
  · subst hgs
    exact h
  · exact h.trans (before_advance q hgs)

end Pos

namespace TokenStream

/-- Behind an end of a stream nothing is left but the end. -/
theorem spells_end_iff {s u : TokenStream} {ws : List Word} (h : ∀ l t, s ≠ .cons l t) :
    Spells ws s u ↔ ws = [] ∧ s = u := by
  cases ws with
  | nil => exact (and_iff_right rfl).symm
  | cons w ws =>
    refine iff_of_false ?_ nofun
    rintro ⟨p, t, hst, -⟩
    exact h _ _ hst

theorem mem_end_iff {s u : TokenStream} (h : ∀ l t, s ≠ .cons l t) :
    u ∈ [s] ↔ ∃ ws, Spells ws s u := by
  rw [List.mem_singleton, eq_comm]
  exact ⟨fun heq => ⟨[], heq⟩, fun ⟨_, hs⟩ => ((spells_end_iff h).1 hs).2⟩

/-- What a reader comes to is what is left behind some words. -/
theorem mem_suffixes_iff {s u : TokenStream} : u ∈ s.suffixes ↔ ∃ ws, Spells ws s u := by
  induction s with
  | eof p => exact mem_end_iff nofun
  | failed e => exact mem_end_iff nofun
  | cons l t ih =>
    rw [suffixes, List.mem_cons, ih]
    constructor
    · rintro (rfl | ⟨ws, h⟩)
      · exact ⟨[], rfl⟩
      · exact ⟨l.word :: ws, l.pos, t, rfl, h⟩
    · rintro ⟨_ | ⟨w, ws⟩, h⟩
      · exact .inl h.symm
      · obtain ⟨_, _, hst, h⟩ := h
        cases hst
        exact .inr ⟨ws, h⟩

/-- A reader comes to the failure of a stream. -/
theorem failed_mem_suffixes {s : TokenStream} {e : ScanError} (h : s.failure? = some e) :
    .failed e ∈ s.suffixes := by
  induction s with
  | eof p => cases h
  | failed e' =>
    cases h
    exact List.mem_singleton_self _
  | cons l t ih => exact List.mem_cons_of_mem _ (ih h)

end TokenStream

namespace Scan

variable {pos : Pos} {gs : List Glyph} {r r' : TokenStream} {ws ws' : List Word}

/-- The stream stands behind its gap. -/
theorem streamFrom_pos (pos : Pos) (gs : List Glyph) :
    (streamFrom pos gs).pos = pos.advance (splitGap false gs).1 := by
  cases hread : read (splitGap false gs).2 with
  | word w text rest => rw [streamFrom_word hread]; rfl
  | tooLarge text => rw [streamFrom_tooLarge hread]; rfl
  | nothing =>
    rw [streamFrom_nothing hread]
    split <;> rfl

/-- What stands after a lexeme is a stream that starts behind it. -/
theorem streamFrom_eq_cons {l : Lexeme} {t : TokenStream} (h : streamFrom pos gs = .cons l t) :
    ∃ pos' gs', l.pos.Before pos' ∧ t = streamFrom pos' gs' := by
  cases hread : read (splitGap false gs).2 with
  | word w text rest =>
    rw [streamFrom_word hread] at h
    cases h
    exact ⟨_, rest, Pos.before_advance _ (read_append hread).2, rfl⟩
  | tooLarge text =>
    rw [streamFrom_tooLarge hread] at h
    cases h
  | nothing =>
    rw [streamFrom_nothing hread] at h
    split at h <;> cases h

/-- **Positions increase along a stream.** -/
theorem streamFrom_before (hne : ws ≠ []) (h : Spells ws (streamFrom pos gs) r) :
    (streamFrom pos gs).pos.Before r.pos := by
  induction ws generalizing pos gs with
  | nil => exact absurd rfl hne
  | cons w ws ih =>
    obtain ⟨p, t, hst, ht⟩ := h
    obtain ⟨pos', gs', hbefore, rfl⟩ := streamFrom_eq_cons hst
    have hnext : p.Before (streamFrom pos' gs').pos := by
      rw [streamFrom_pos]
      exact Pos.Before.advance hbefore _
    rw [hst]
    by_cases hws : ws = []
    · subst hws
      cases ht
      exact hnext
    · exact hnext.trans (ih hws ht)

/-- **Along the stream of a text positions increase.** -/
theorem streamFrom_pairwise (pos : Pos) (gs : List Glyph) :
    (streamFrom pos gs).suffixes.Pairwise fun u v => u.pos.Before v.pos := by
  induction hs : streamFrom pos gs generalizing pos gs with
  | eof p => exact List.pairwise_singleton _ _
  | failed e => exact List.pairwise_singleton _ _
  | cons l t ih =>
    obtain ⟨pos', gs', -, ht⟩ := streamFrom_eq_cons hs
    refine List.pairwise_cons.2 ⟨fun v hv => ?_, ih pos' gs' ht.symm⟩
    obtain ⟨ws, hws⟩ := TokenStream.mem_suffixes_iff.1 hv
    have hspells : Spells (l.word :: ws) (streamFrom pos gs) v := hs ▸ ⟨l.pos, t, rfl, hws⟩
    have hbefore := streamFrom_before (List.cons_ne_nil _ _) hspells
    rwa [hs] at hbefore

theorem streamFrom_place_unique (h : Spells ws (streamFrom pos gs) r)
    (h' : Spells ws' (streamFrom pos gs) r') (hpos : r.pos = r'.pos) : ws = ws' ∧ r = r' := by
  induction ws generalizing ws' pos gs with
  | nil =>
    cases h
    by_cases hws' : ws' = []
    · subst hws'
      exact ⟨rfl, h'⟩
    · exact absurd (hpos ▸ streamFrom_before hws' h') (Pos.not_before_self _)
  | cons w ws ih =>
    cases ws' with
    | nil =>
      cases h'
      exact absurd (hpos ▸ streamFrom_before (List.cons_ne_nil w ws) h) (Pos.not_before_self _)
    | cons w' ws' =>
      obtain ⟨p, t, hst, ht⟩ := h
      obtain ⟨p', t', hst', ht'⟩ := h'
      rw [hst] at hst'
      cases hst'
      obtain ⟨pos', gs', -, rfl⟩ := streamFrom_eq_cons hst
      obtain ⟨rfl, hr⟩ := ih ht ht'
      exact ⟨rfl, hr⟩

end Scan

/-- **No two places of a source have the same position.** -/
theorem Source.place_unique {src : Source} {ws ws' : List Word} {r r' : TokenStream}
    (h : Spells ws src.tokens r) (h' : Spells ws' src.tokens r') (hpos : r.pos = r'.pos) :
    ws = ws' ∧ r = r' := by
  obtain ⟨name, bytes, failure⟩ := src
  cases failure with
  | none => exact Scan.streamFrom_place_unique h h' hpos
  | some cause =>
    have hend : ∀ l t, TokenStream.failed (.read name cause) ≠ .cons l t := nofun
    obtain ⟨rfl, rfl⟩ := (TokenStream.spells_end_iff hend).1 h
    obtain ⟨rfl, rfl⟩ := (TokenStream.spells_end_iff hend).1 h'
    exact ⟨rfl, rfl⟩

end PairDict
