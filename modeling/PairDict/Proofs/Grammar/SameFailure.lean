import PairDict.Proofs.Grammar.Agreement
import PairDict.Proofs.Grammar.CorrectPrefix

/-! # Listing the tokens and parsing meet the same failure

A cursor that is moved until it comes to an end comes to the end of the source or to its
failure (`Cursor.Scans`).  Parsing is not as thorough: it stops at the first lexeme that does
not fit.  So if the source has a lexical error, parsing reports that error, or a parse error
at a place before it; and if it has none, parsing reports none
(`Source.parsed_meets_failure`).

The reader is the driven one, which reads values through its cursor and would stop at a misuse
of it.  It never does, since it makes of a stream what `TokenStream.program` makes of
it, where there is no cursor to misuse.
-/
namespace PairDict

open Grammar

namespace Cursor

/-- Moving the cursor until it comes to an end comes to a failure, or to none. -/
inductive Scans : Cursor → Option ScanError → Prop where
  | failure {c e} : c.next.failure? = some e → Scans c (some e)
  | eof {c} : c.next.failure? = none → c.next.token = .eof → Scans c none
  | more {c outcome} : c.next.failure? = none → c.next.token ≠ .eof → Scans c.next outcome →
      Scans c outcome

/-- What a cursor comes to is how the stream ends onto which it is moved first. -/
theorem scans_iff {c : Cursor} {s : TokenStream} {outcome : Option ScanError}
    (hc : c.next = .on s) : c.Scans outcome ↔ outcome = s.failure? := by
  induction s generalizing c with
  | eof p =>
    have hfailure : c.next.failure? = none := by rw [hc]; rfl
    have htoken : c.next.token = .eof := by rw [hc]; rfl
    constructor
    · intro h
      cases h with
      | failure h => rw [hfailure] at h; cases h
      | eof _ _ => rfl
      | more _ h _ => exact absurd htoken h
    · rintro rfl
      exact .eof hfailure htoken
  | failed e =>
    have hfailure : c.next.failure? = some e := by rw [hc]; rfl
    constructor
    · intro h
      cases h with
      | failure h => exact h.symm.trans hfailure
      | eof h _ => rw [hfailure] at h; cases h
      | more h _ _ => rw [hfailure] at h; cases h
    · rintro rfl
      exact .failure hfailure
  | cons l rest ih =>
    have hfailure : c.next.failure? = none := by rw [hc]; rfl
    have htoken : c.next.token ≠ .eof := by
      rw [hc]
      obtain ⟨w, p⟩ := l
      cases w <;> nofun
    have hnext : c.next.next = .on rest := by rw [hc]; rfl
    constructor
    · intro h
      cases h with
      | failure h => rw [hfailure] at h; cases h
      | eof _ h => exact absurd h htoken
      | more _ _ h => exact (ih hnext).1 h
    · intro h
      exact .more hfailure htoken ((ih hnext).2 h)

theorem scans_before_iff {s : TokenStream} {outcome : Option ScanError} :
    (before s).Scans outcome ↔ outcome = s.failure? :=
  scans_iff rfl

end Cursor

/-! ## Where a failure stands -/

variable {ws : List Word} {s u : TokenStream}

/-- What follows the front of a stream ends as the stream does. -/
theorem Spells.failure?_eq (h : Spells ws s u) : s.failure? = u.failure? := by
  induction ws generalizing s with
  | nil =>
    cases h
    rfl
  | cons w ws ih =>
    obtain ⟨p, t, rfl, ht⟩ := h
    have hrest : t.failure? = u.failure? := ih ht
    exact hrest

/-- A stream that fails has words up to the failure. -/
theorem Spells.of_failure? {e : ScanError} (h : s.failure? = some e) :
    ∃ ws, Spells ws s (.failed e) := by
  induction s with
  | eof p => cases h
  | failed e' =>
    cases h
    exact ⟨[], rfl⟩
  | cons l rest ih =>
    obtain ⟨ws, hws⟩ := ih h
    exact ⟨l.word :: ws, l.pos, rest, rfl, hws⟩

/-- What follows the front of the text of a source is the rest of the text. -/
theorem Scan.streamFrom_rest {pos : Pos} {gs : List Glyph} (h : Spells ws (streamFrom pos gs) u) :
    ∃ pos' gs', u = streamFrom pos' gs' := by
  induction ws generalizing pos gs with
  | nil => exact ⟨pos, gs, h.symm⟩
  | cons w ws ih =>
    obtain ⟨p, t, hst, ht⟩ := h
    obtain ⟨pos', gs', -, rfl⟩ := streamFrom_eq_cons hst
    exact ih ht

/-- **The lexemes of a source stand before its failure.** -/
theorem Source.pos_before_failure {src : Source} {l : Lexeme} {t : TokenStream} {e : ScanError}
    (h : Spells ws src.tokens (.cons l t)) (he : src.tokens.failure? = some e) :
    l.pos.Before e.pos := by
  rw [h.failure?_eq] at he
  obtain ⟨more, hmore⟩ := Spells.of_failure? he
  obtain ⟨name, bytes, failure⟩ := src
  cases failure with
  | none =>
    obtain ⟨pos, gs, hrest⟩ := Scan.streamFrom_rest h
    have hne : more ≠ [] := by
      rintro rfl
      cases hmore
    rw [hrest] at hmore
    have hbefore := Scan.streamFrom_before hne hmore
    rw [← hrest] at hbefore
    exact hbefore
  | some cause =>
    -- a source that could not be read has no lexemes
    cases ws with
    | nil => cases h
    | cons w ws =>
      obtain ⟨p, u, hst, -⟩ := h
      cases hst

/-- An error is about what stands somewhere in the stream. -/
theorem TokenStream.program_error_at {e : SyntaxError} (h : s.program = .error e) :
    ∃ ws u expected, Spells ws s u ∧ e = Parser.reject expected u := by
  have hno : ∀ p, s.program ≠ .ok p := fun p hp => by
    rw [h] at hp
    cases hp
  obtain ⟨ws, u, expected, hs, -, hfails⟩ := program_settled hno
  refine ⟨ws, u, expected, hs, ?_⟩
  rw [hfails s u hs (.refl u)] at h
  exact (Except.error.inj h).symm

/-- **A stream that fails is no program**, and what is reported is the failure or a lexeme. -/
theorem TokenStream.program_of_failure? {e : ScanError} (he : s.failure? = some e) :
    s.program = .error (.scan e) ∨ ∃ ws l t expected, Spells ws s (.cons l t) ∧
      s.program = .error (.parse ⟨l.pos, expected, some l.word⟩) := by
  cases hp : s.program with
  | ok p =>
    obtain ⟨body, q, hbody, -⟩ := program_eq_ok_iff.1 hp
    obtain ⟨d, hd, -⟩ := Parser.seq_derives hbody
    rw [hd.failure?_eq] at he
    cases he
  | error err =>
    obtain ⟨ws, u, expected, hs, rfl⟩ := program_error_at hp
    cases u with
    | eof q =>
      rw [hs.failure?_eq] at he
      cases he
    | failed e' =>
      rw [hs.failure?_eq] at he
      cases he
      exact .inl rfl
    | cons l t => exact .inr ⟨ws, l, t, expected, hs, rfl⟩

/-- A stream that does not fail is a program, or a token of it is to blame. -/
theorem TokenStream.program_of_failure?_none (hs : s.failure? = none) (e : ScanError) :
    s.program ≠ .error (.scan e) := by
  intro h
  obtain ⟨ws, u, expected, hspells, he⟩ := program_error_at h
  rw [hspells.failure?_eq] at hs
  cases u with
  | eof q => cases he
  | failed e' => cases hs
  | cons l t => cases he

/-! ## What a driven reader makes of a source -/

namespace TokenStream

variable {p : Program Pos} {e : SyntaxError}

/-- What is read off a stream is what a driven reader has read. -/
theorem parsed_of_program (h : s.program = .ok p) : s.parsed = (some p, none) := by
  unfold parsed
  rcases Driver.program_agrees s with ⟨p', hread, hdriven⟩ | ⟨e, moves, hread, -, -⟩
  · rw [hread] at h
    cases h
    rw [hdriven]
  · rw [hread] at h
    cases h

/-- The error of a stream is what stops a driven reader. -/
theorem parsed_of_error (h : s.program = .error e) : s.parsed = (none, some (.ofSyntax e)) := by
  unfold parsed
  rcases Driver.program_agrees s with ⟨p, hread, -⟩ | ⟨e', moves, hread, hdriven, -⟩
  · rw [hread] at h
    cases h
  · rw [hread] at h
    cases h
    rw [hdriven]

end TokenStream

/-- **Listing the tokens of a source and parsing it agree on its lexical error.**  There is
one way in which the listing ends.  If it ends without a failure, parsing does not report one;
if it ends in a lexical error, parsing reports this one, or a parse error at a place before it.
Parsing is never stopped by a misuse of its cursor, and gives a program or an error and not
both: what `TokenStream.program` gives. -/
theorem Source.parsed_meets_failure (src : Source) :
    (∃ outcome, ∀ r, (Cursor.before src.tokens).Scans r ↔ r = outcome) ∧
    ((Cursor.before src.tokens).Scans none → ∀ e, src.tokens.parsed.2 ≠ some (.scan e)) ∧
    (∀ e, (Cursor.before src.tokens).Scans (some (.lex e)) →
      src.tokens.parsed.2 = some (.scan (.lex e)) ∨
        ∃ f, src.tokens.parsed.2 = some (.parse f) ∧ f.pos.Before e.pos) ∧
    (∀ m, src.tokens.parsed.2 ≠ some (.misuse m)) ∧
    ((∃ p, src.tokens.parsed = (some p, none) ∧ src.tokens.program = .ok p) ∨
      ∃ e, src.tokens.parsed = (none, some (.ofSyntax e)) ∧ src.tokens.program = .error e) := by
  refine ⟨⟨src.tokens.failure?, fun r => Cursor.scans_before_iff⟩, ?_, ?_, ?_, ?_⟩
  · intro hscans e
    have hnone : src.tokens.failure? = none := (Cursor.scans_before_iff.1 hscans).symm
    cases hp : src.tokens.program with
    | ok p =>
      rw [TokenStream.parsed_of_program hp]
      nofun
    | error err =>
      rw [TokenStream.parsed_of_error hp]
      cases err with
      | scan e' => exact absurd hp (TokenStream.program_of_failure?_none hnone e')
      | parse f => nofun
  · intro e hscans
    have hsome : src.tokens.failure? = some (.lex e) := (Cursor.scans_before_iff.1 hscans).symm
    rcases TokenStream.program_of_failure? hsome with hp | ⟨ws, l, t, expected, hs, hp⟩
    · exact .inl (congrArg Prod.snd (TokenStream.parsed_of_error hp))
    · exact .inr ⟨_, congrArg Prod.snd (TokenStream.parsed_of_error hp),
        Source.pos_before_failure hs hsome⟩
  · intro m
    cases hp : src.tokens.program with
    | ok p =>
      rw [TokenStream.parsed_of_program hp]
      nofun
    | error err =>
      rw [TokenStream.parsed_of_error hp]
      cases err <;> nofun
  · cases hp : src.tokens.program with
    | ok p => exact .inl ⟨p, TokenStream.parsed_of_program hp, rfl⟩
    | error err => exact .inr ⟨err, TokenStream.parsed_of_error hp, rfl⟩

/-- In `print ) $` the dollar is the lexical error, and the parenthesis before it is what is
reported. -/
def Source.parenDollar : Source := { name := "f", bytes := Utf8.ofString "print ) $" }

/-- The listing of `print ) $` does end at the dollar, and parsing at the parenthesis. -/
theorem Source.parsed_meets_failure_parenDollar :
    (Cursor.before parenDollar.tokens).Scans
        (some (.lex (.unrecognized ⟨"f", 1, 9⟩ [.char '$']))) ∧
      parenDollar.tokens.parsed.2 =
        some (.parse ⟨⟨"f", 1, 7⟩, none, some (.symbol .rparen)⟩) ∧
      (parenDollar.tokens.parsed.2 =
          some (.scan (.lex (.unrecognized ⟨"f", 1, 9⟩ [.char '$']))) ∨
        ∃ f, parenDollar.tokens.parsed.2 = some (.parse f) ∧ f.pos.Before ⟨"f", 1, 9⟩) := by
  have hfailure : parenDollar.tokens.failure? =
      some (.lex (.unrecognized ⟨"f", 1, 9⟩ [.char '$'])) := by decide +kernel
  have hscans := Cursor.scans_before_iff.2 hfailure.symm
  exact ⟨hscans, by decide +kernel, (Source.parsed_meets_failure parenDollar).2.2.1 _ hscans⟩

end PairDict
