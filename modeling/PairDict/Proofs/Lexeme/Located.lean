import PairDict.Proofs.Grammar.Derivation
import PairDict.Proofs.Lexeme.Munch

/-! # Positions point into the source

The position of what stands at the front of a stream is the position that is reached from
the start of the source by the glyphs before some place in its text, and what stands there
begins the text after that place: a word by its spelling, a lexical error by the text that
it rejects, and the end of the source by nothing (`Source.holds_of_spells`).

So a position that a stream reports is valid and names its source
(`Source.Holds.isValid`, `Source.Holds.file_eq`).
-/
namespace PairDict

namespace Pos

theorem advance_append (p : Pos) (gs gs' : List Glyph) :
    p.advance (gs ++ gs') = (p.advance gs).advance gs' :=
  List.foldl_append

@[simp] theorem file_next (p : Pos) (g : Glyph) : (p.next g).file = p.file := by
  unfold next
  split <;> rfl

@[simp] theorem file_advance (p : Pos) (gs : List Glyph) : (p.advance gs).file = p.file := by
  induction gs generalizing p with
  | nil => rfl
  | cons g gs ih => exact (ih (p.next g)).trans (file_next p g)

theorem line_le_next (p : Pos) (g : Glyph) : p.line ≤ (p.next g).line := by
  unfold next
  split
  · exact Int.le_of_lt (Int.lt_succ _)
  · exact Int.le_refl _

theorem line_le_advance (p : Pos) (gs : List Glyph) : p.line ≤ (p.advance gs).line := by
  induction gs generalizing p with
  | nil => exact Int.le_refl _
  | cons g gs ih => exact Int.le_trans (line_le_next p g) (ih (p.next g))

end Pos

theorem Utf8.encode_prefix {gs gs' : List Glyph} (h : gs <+: gs') : encode gs <+: encode gs' := by
  obtain ⟨more, rfl⟩ := h
  rw [encode_append]
  exact List.prefix_append _ _

/-- What stands at the front of a stream begins the glyphs. -/
def TokenStream.Begins (gs : List Glyph) : TokenStream → Prop
  | .cons l _ => Scan.Starts gs l.word.literal.toList
  | .eof _ => gs = []
  | .failed (.lex e) => e.rejected ≠ [] ∧ e.rejected <+: Utf8.encode gs
  | .failed (.read _ _) => False

namespace Scan

variable {pos : Pos} {gs : List Glyph} {ws : List Word} {u : TokenStream}

/-- The stream of a text stands behind its gap, and what stands at its front begins what
follows the gap. -/
theorem streamFrom_begins (pos : Pos) (h : Utf8.Decoded gs) :
    (streamFrom pos gs).pos = pos.advance (splitGap false gs).1 ∧
      (streamFrom pos gs).Begins (splitGap false gs).2 := by
  have hleft : Utf8.Decoded (splitGap false gs).2 :=
    Utf8.Decoded.of_append ((splitGap_append false gs).symm ▸ h)
  have hfinds := read_finds (splitGap false gs).2
  cases hread : read (splitGap false gs).2 with
  | word w text rest =>
    rw [hread] at hfinds
    cases hfinds with
    | word hlongest =>
      rw [streamFrom_word hread]
      exact ⟨rfl, hlongest.stands⟩
  | tooLarge text =>
    rw [hread] at hfinds
    cases hfinds with
    | @tooLarge cs hlongest _ =>
      obtain ⟨c, ds, rfl, -⟩ := hlongest.pattern.shape
      rw [streamFrom_tooLarge hread, spelling_map_char]
      refine ⟨rfl, ?_, ?_⟩
      · rw [LexError.rejected, ← Utf8.encode_map_char]
        exact encode_ne_nil (List.cons_ne_nil _ _)
      · rw [LexError.rejected, ← Utf8.encode_map_char]
        exact Utf8.encode_prefix hlongest.stands
  | nothing =>
    rw [streamFrom_nothing hread]
    split
    · next hnil => exact ⟨rfl, hnil⟩
    · next hne =>
      have hstop := (splitGap_spec gs h).1.2.2
      have hline := line_ne_nil hleft hne hstop
      rw [← encode_restOfLine _ hleft] at hline
      exact ⟨rfl, hline, Utf8.encode_prefix (List.takeWhile_prefix _)⟩

/-- **What a stream holds stands in its text**, where its position says: behind the words
that were munched before it. -/
theorem streamFrom_located (h : Utf8.Decoded gs) (hu : Spells ws (streamFrom pos gs) u) :
    ∃ before after, before ++ after = gs ∧ u.pos = pos.advance before ∧ u.Begins after ∧
      Munch (Utf8.encode gs) ws (Utf8.encode after) ∧ (after = [] → u.token = .eof) := by
  induction ws generalizing pos gs with
  | nil =>
    cases hu
    have happend : (splitGap false gs).1 ++ (splitGap false gs).2 = gs := splitGap_append false gs
    obtain ⟨hpos, hbegins⟩ := streamFrom_begins pos h
    have hstop : Munch (Utf8.encode gs) [] (Utf8.encode (splitGap false gs).2) := by
      have hstop := munch_stop (Utf8.Decoded.of_append (happend.symm ▸ h)) (splitGap_spec gs h).1
      rwa [happend] at hstop
    refine ⟨_, _, happend, hpos, hbegins, hstop, fun hnil => ?_⟩
    rw [streamFrom_eof hnil]
    rfl
  | cons w ws ih =>
    obtain ⟨p, t, hst, ht⟩ := hu
    cases hread : read (splitGap false gs).2 with
    | word w text rest =>
      rw [streamFrom_word hread] at hst
      cases hst
      have happend : (splitGap false gs).1 ++ (text ++ rest) = gs := by
        rw [(read_append hread).1, splitGap_append]
      have hrest : Utf8.Decoded rest :=
        Utf8.Decoded.of_append (Utf8.Decoded.of_append (happend.symm ▸ h))
      obtain ⟨before, after, hparts, hpos, hbegins, hmunch, hend⟩ := ih hrest ht
      refine ⟨(splitGap false gs).1 ++ (text ++ before), after, ?_, ?_, hbegins,
        munch_word h hread hmunch, hend⟩
      · rw [List.append_assoc, List.append_assoc, hparts, happend]
      · rw [hpos, Pos.advance_append, Pos.advance_append]
    | tooLarge text =>
      rw [streamFrom_tooLarge hread] at hst
      cases hst
    | nothing =>
      rw [streamFrom_nothing hread] at hst
      split at hst <;> cases hst

end Scan

/-! ## Sources -/

namespace Source

/-- A source holds what stands at the front of a stream: the stream is left of its tokens
behind some of them, its front begins the text behind some place, and that place has its
position. -/
def Holds (src : Source) (u : TokenStream) : Prop :=
  (∃ ws, Spells ws src.tokens u) ∧
    ∃ before after, before ++ after = Utf8.decode src.bytes ∧
      u.pos = (Pos.start src.name).advance before ∧ u.Begins after

variable {src : Source} {u : TokenStream} {ws : List Word}

/-- **A source that was read to its end holds whatever its stream comes to.** -/
theorem holds_of_spells (hread : src.failure = none) (h : Spells ws src.tokens u) :
    src.Holds u := by
  refine ⟨⟨ws, h⟩, ?_⟩
  have htokens : src.tokens = Scan.streamFrom (.start src.name) (Utf8.decode src.bytes) := by
    rw [tokens, hread]
  rw [htokens] at h
  obtain ⟨before, after, hparts, hpos, hbegins, -⟩ :=
    Scan.streamFrom_located (Utf8.decoded_decode src.bytes) h
  exact ⟨before, after, hparts, hpos, hbegins⟩

theorem Holds.file_eq (h : src.Holds u) : u.pos.file = src.name := by
  obtain ⟨-, before, after, -, hpos, -⟩ := h
  rw [hpos, Pos.file_advance]
  rfl

theorem Holds.isValid (h : src.Holds u) : u.pos.isValid = true := by
  obtain ⟨-, before, after, -, hpos, -⟩ := h
  have hline := Pos.line_le_advance (Pos.start src.name) before
  rw [← hpos] at hline
  exact decide_eq_true (Int.lt_of_lt_of_le Int.one_pos hline)

end Source

end PairDict
