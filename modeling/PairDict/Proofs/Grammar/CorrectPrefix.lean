import PairDict.Proofs.Grammar.Settled
import PairDict.Proofs.Lexeme.Layout
import PairDict.Proofs.Lexeme.Order

/-! # Errors stand at the first word that does not fit

A list of words is **accepted** if there is a source that holds these words and is read as
a program, and it is **completable** if it can be continued to one that is accepted.

If the lexemes of a source are not a program, then the error stands at the first place where
they stop being completable: the words before it are completable, and with the word that is
found there they are not any more.  What the error says is true (`Blames`): if it expects
one kind of word, then the words before it are completable with any word of that kind behind
them; and if it expects the end, then they are accepted as they are.  A source that cannot be
read to its end fails only if all the words before that place are completable.
-/
namespace PairDict

open Grammar PairDict.Parser PairDict.Parser.Result

/-! ## Programs that fail -/

namespace TokenStream

variable {s u : TokenStream} {ws : List Word}

theorem program_of_left_error {e : SyntaxError} (h : (seq s).left = .error e) :
    s.program = .error e := by
  rw [program, left_eq_error_iff.1 h]
  rfl

theorem program_of_left_ok (h : (seq s).left = .ok u) (hne : ∀ p, u ≠ .eof p) :
    s.program = .error (reject (some .eof) u) := by
  obtain ⟨body, hlt, hbody⟩ := left_eq_ok_iff.1 h
  rw [program, hbody]
  cases u with
  | eof p => exact absurd rfl (hne p)
  | failed e | cons l t => rfl

/-- What is expected after the words of a stream that is not a program. -/
inductive Expects (ws : List Word) : Option Token → Prop where
  /-- The words are a program, and the source goes on. -/
  | eof : Derives Sequence.words ws → Expects ws (some .eof)
  /-- The words are the beginning of a program. -/
  | fits {expected} : Fits (Derives Sequence.words) ws (.refused expected) → Expects ws expected

/-- **What stops a program is settled by the words before it and by what stands there.** -/
theorem program_settled (h : ∀ p, s.program ≠ .ok p) :
    ∃ ws u expected, Spells ws s u ∧ Expects ws expected ∧
      ∀ s' u', Spells ws s' u' → SameFront u u' → s'.program = .error (reject expected u') := by
  obtain ⟨ws, v, u, hs, hfits, hread⟩ := seq_settled s
  cases v with
  | refused expected =>
    exact ⟨ws, u, expected, hs, .fits hfits, fun s' u' hs' hu =>
      program_of_left_error (hread s' u' hs' hu)⟩
  | read =>
    have hleft : (seq s).left = .ok u := hread s u hs (.refl u)
    have hne : ∀ p, u ≠ .eof p := by
      rintro p rfl
      obtain ⟨body, hbody⟩ := left_eq_ok_iff.1 hleft
      exact h _ (program_eq_ok_iff.2 ⟨body, p, hbody, rfl⟩)
    refine ⟨ws, u, some .eof, hs, .eof hfits.phrase, fun s' u' hs' hu =>
      program_of_left_ok (hread s' u' hs' hu) ?_⟩
    rintro p rfl
    cases hu
    exact hne _ rfl

end TokenStream

/-! ## Accepted words -/

/-- There is a source that holds the words and is a program. -/
def Accepted (ws : List Word) : Prop :=
  ∃ src : Source, (∃ q, Spells ws src.tokens (.eof q)) ∧ ∃ p, src.tokens.program = .ok p

/-- The words can be continued to words that are accepted. -/
def Completable (ws : List Word) : Prop := ∃ more, Accepted (ws ++ more)

/-- A stream of the words of a sequence is a program. -/
theorem TokenStream.program_of_derives {s : TokenStream} {q : Pos} {ws : List Word}
    (hs : Spells ws s (.eof q)) (h : Derives Sequence.words ws) : ∃ p, s.program = .ok p := by
  obtain ⟨d, rfl⟩ := h
  obtain ⟨body, -, hread⟩ := d.read hs (.inr rfl)
  exact ⟨_, program_eq_ok_iff.2 ⟨body, q, hread, rfl⟩⟩

theorem spellable_of_spells {src : Source} {ws : List Word} {r : TokenStream}
    (h : Spells ws src.tokens r) : ∀ w ∈ ws, w.Spellable := by
  have hmem : ∀ {ws : List Word} {s : TokenStream}, Spells ws s r →
      ∀ w ∈ ws, ∃ l ∈ s.lexemes, l.word = w := by
    intro ws
    induction ws with
    | nil => exact fun _ w hw => absurd hw List.not_mem_nil
    | cons w ws ih =>
      rintro _ ⟨p, t, rfl, ht⟩ w' hw'
      rcases List.mem_cons.1 hw' with rfl | hw'
      · exact ⟨⟨w', p⟩, List.mem_cons_self, rfl⟩
      · obtain ⟨l, hl, heq⟩ := ih ht w' hw'
        exact ⟨l, List.mem_cons_of_mem _ hl, heq⟩
  intro w hw
  obtain ⟨l, hl, rfl⟩ := hmem h w hw
  exact src.spellable_of_mem l hl

/-- **The accepted words are those of the grammar that can be spelled.** -/
theorem accepted_iff {ws : List Word} :
    Accepted ws ↔ (∀ w ∈ ws, w.Spellable) ∧ Derives Sequence.words ws := by
  constructor
  · rintro ⟨src, ⟨q, hws⟩, p, hp⟩
    obtain ⟨body, q', hread, -⟩ := TokenStream.program_eq_ok_iff.1 hp
    obtain ⟨d, hd, -⟩ := seq_derives hread
    refine ⟨spellable_of_spells hws, d, ?_⟩
    rw [(Spells.eof_iff.1 ⟨q, hws⟩).2, (Spells.eof_iff.1 ⟨q', hd⟩).2]
  · rintro ⟨hspell, hws⟩
    obtain ⟨q, hq⟩ := (Scan.Layout.spread hspell).spells ""
    exact ⟨_, ⟨q, hq⟩, TokenStream.program_of_derives hq hws⟩

theorem completable_of_viable {ws : List Word} (hws : ∀ w ∈ ws, w.Spellable)
    (h : Viable (Derives Sequence.words) ws) : Completable ws := by
  obtain ⟨more, hmore, hderives⟩ := h
  exact ⟨more, accepted_iff.2
    ⟨fun w hw => (List.mem_append.1 hw).elim (hws w) (hmore w), hderives⟩⟩

/-- What an error expects after the words `ws` can stand there. -/
inductive ExpectedAfter (ws : List Word) : Option Token → Prop where
  /-- The error does not say. -/
  | any : ExpectedAfter ws none
  /-- The words are accepted as they are. -/
  | eof : Accepted ws → ExpectedAfter ws (some .eof)
  /-- The words are completable with any word of the kind behind them. -/
  | kind {t} : (∃ w : Word, w.token = t ∧ w.Spellable) →
      (∀ w : Word, w.token = t → w.Spellable → Completable (ws ++ [w])) →
      ExpectedAfter ws (some t)

/-- The error is about what stands behind the words `ws`, and what it says is true. -/
inductive Blames (ws : List Word) : TokenStream → SyntaxError → Prop where
  /-- The source cannot be read any further. -/
  | scan {f} : Blames ws (.failed f) (.scan f)
  /-- No program starts with the words and the word that was found. -/
  | word {w p t expected} : ¬ Completable (ws ++ [w]) → ExpectedAfter ws expected →
      Blames ws (.cons ⟨w, p⟩ t) (.parse ⟨p, expected, some w⟩)
  /-- The words are no program. -/
  | eof {p expected} : ¬ Accepted ws → ExpectedAfter ws expected →
      Blames ws (.eof p) (.parse ⟨p, expected, none⟩)

theorem TokenStream.Expects.after {ws : List Word} {expected : Option Token}
    (hws : ∀ w ∈ ws, w.Spellable) (h : TokenStream.Expects ws expected) :
    ExpectedAfter ws expected := by
  cases h with
  | eof h => exact .eof (accepted_iff.2 ⟨hws, h⟩)
  | fits h =>
    cases h with
    | unexpected _ => exact .any
    | expected hw h =>
      refine .kind hw fun w htoken hspell => completable_of_viable ?_ (h w htoken hspell)
      exact fun w' hw' => (List.mem_append.1 hw').elim (hws w')
        fun hw' => List.mem_singleton.1 hw' ▸ hspell

theorem TokenStream.Expects.viable {ws : List Word} {expected : Option Token}
    (h : TokenStream.Expects ws expected) : Viable (Derives Sequence.words) ws := by
  cases h with
  | eof h => exact .of_phrase h
  | fits h => exact h.viable

/-- **A syntax error stands at the first place where the source stops being completable,
and what it says is true.**  The position that it reports belongs to this place only. -/
theorem Source.program_error_first_offense {src : Source} {e : SyntaxError}
    (h : src.tokens.program = .error e) :
    ∃ ws rest, Spells ws src.tokens rest ∧ Completable ws ∧ Blames ws rest e ∧
      ∀ ws' rest', Spells ws' src.tokens rest' → rest'.pos = rest.pos →
        ws' = ws ∧ rest' = rest := by
  have hno : ∀ p, src.tokens.program ≠ .ok p := fun p hp => by
    rw [h] at hp
    cases hp
  obtain ⟨ws, u, expected, hs, hexpects, hfails⟩ := TokenStream.program_settled hno
  have hspell : ∀ w ∈ ws, w.Spellable := spellable_of_spells hs
  have he : e = reject expected u := by
    rw [hfails _ u hs (.refl u)] at h
    cases h
    rfl
  -- no source is a program that holds `ws` and has the same front behind them
  have hrefutes : ∀ more, (∀ s q, Spells more s (.eof q) → SameFront u s) →
      ¬ Accepted (ws ++ more) := by
    rintro more hfront ⟨src', ⟨q, hq⟩, p, hp⟩
    obtain ⟨s, hs', hmore⟩ := Spells.append_iff.1 hq
    rw [hfails _ s hs' (hfront s q hmore)] at hp
    cases hp
  refine ⟨ws, u, hs, completable_of_viable hspell hexpects.viable, ?_, fun ws' rest' hs' hpos =>
    Source.place_unique hs' hs hpos⟩
  rw [he]
  cases u with
  | failed f => exact .scan
  | cons l t =>
    refine .word ?_ (hexpects.after hspell)
    rintro ⟨more, haccepted⟩
    rw [List.append_assoc] at haccepted
    refine hrefutes _ ?_ haccepted
    rintro _ _ ⟨p, t', rfl, -⟩
    exact .cons
  | eof p =>
    refine .eof (fun haccepted => ?_) (hexpects.after hspell)
    rw [← List.append_nil ws] at haccepted
    refine hrefutes [] ?_ haccepted
    rintro _ _ rfl
    exact .eof

/-- In `print )` the parenthesis is to blame, and nothing single is expected. -/
theorem Source.program_error_first_offense_printParen :
    ∃ (src : Source) (e : SyntaxError), src.bytes = Utf8.ofString "print ) " ∧
      src.tokens.program = .error e ∧ ∃ ws rest, Spells ws src.tokens rest ∧ Completable ws ∧
        Blames ws rest e ∧ ∀ ws' rest', Spells ws' src.tokens rest' → rest'.pos = rest.pos →
          ws' = ws ∧ rest' = rest := by
  have hspell : ∀ w ∈ [Word.keyword .printKw, .symbol .rparen], w.Spellable :=
    List.forall_mem_cons.2 ⟨trivial, List.forall_mem_singleton.2 trivial⟩
  obtain ⟨q, p, _, hst, p', t, rfl, -⟩ := (Scan.Layout.spread hspell).spells "print"
  have hoperand : (operand (.cons ⟨.symbol .rparen, p'⟩ t)).left =
      .error (reject none (.cons ⟨.symbol .rparen, p'⟩ t)) := by
    refine left_operand_of_not ?_
    rintro _ _ ⟨⟩
    rfl
  have hleft : (seq (.cons ⟨.keyword .printKw, p⟩ (.cons ⟨.symbol .rparen, p'⟩ t))).left =
      .error (reject none (.cons ⟨.symbol .rparen, p'⟩ t)) := by
    rw [left_seq, left_stmt_print, expr, left_binary, left_unary_of_not_isUnary, left_postfixed,
      hoperand]
    · rfl
    · rintro _ _ ⟨⟩
      rfl
  have h := TokenStream.program_of_left_error hleft
  rw [← hst] at h
  exact ⟨_, _, by decide +kernel, h, Source.program_error_first_offense h⟩

end PairDict
