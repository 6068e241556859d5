import PairDict.Pipeline
import PairDict.Proofs.Grammar.Placed
import PairDict.Proofs.Grammar.SameFailure
import PairDict.Proofs.Lexeme.Located

/-! # Failures are of their phase, and stand in the source

A run that fails has failed in one of its phases, and carries the error with which that
phase ended (`Fails`).  Before the last phase nothing is offered to the sink.

Every failure but that of a source which could not be read says where it is.  A lexical
error stands where the text starts that it rejects.  Any other failure stands where a token
of the source starts, or at the end of the source: for a syntax error this is the token that
does not fit, and for an error of a later phase it is a position of the tree, and trees
are built from the positions of tokens.
-/
namespace PairDict

variable {σ : Type}

namespace Failure

/-- The position that a failure reports.  A source that could not be read has none. -/
def pos : Failure → Pos
  | .lex e => e.pos
  | .parse e => e.pos
  | .typecheck e => e.ann
  | .execute f => f.ann

end Failure

/-! ## Messages start with a position -/

theorem Utf8.ofString_append (s t : String) : ofString (s ++ t) = ofString s ++ ofString t := by
  rw [ofString, ofString, ofString, String.toList_append, List.flatMap_append]

theorem Utf8.ofString_prefix (s t : String) : ofString s <+: ofString (s ++ t) := by
  rw [ofString_append]
  exact List.prefix_append _ _

theorem LexError.position_prefix_message (e : LexError) :
    Utf8.ofString (e.pos.text ++ ": ") <+: e.message := by
  cases e with
  | unrecognized p gs =>
    have hcolon : ": unrecognized token starting at '" =
        ": " ++ "unrecognized token starting at '" := by decide
    rw [message, hcolon, ← String.append_assoc, List.append_assoc]
    exact (Utf8.ofString_prefix _ _).trans (List.prefix_append _ _)
  | outOfRange p s => exact Utf8.ofString_prefix _ _

theorem ParseError.position_prefix_message (e : ParseError) :
    Utf8.ofString (e.pos.text ++ ": ") <+: Utf8.ofString e.message := by
  rw [message]
  split
  · have hcolon : ": unexpected " = ": " ++ "unexpected " := by decide
    rw [hcolon, ← String.append_assoc, String.append_assoc]
    exact Utf8.ofString_prefix _ _
  · have hcolon : ": expected " = ": " ++ "expected " := by decide
    rw [hcolon, ← String.append_assoc, String.append_assoc, String.append_assoc,
      String.append_assoc]
    exact Utf8.ofString_prefix _ _

/-- The message of a failure starts with its position, unless the source could not be
read. -/
theorem Failure.position_prefix_message {f : Failure}
    (h : ∀ file cause, f ≠ .lex (.read file cause)) :
    Utf8.ofString (f.pos.text ++ ": ") <+: f.message := by
  cases f with
  | lex e =>
    cases e with
    | lex e => exact e.position_prefix_message
    | read file cause => exact absurd rfl (h file cause)
  | parse e => exact e.position_prefix_message
  | typecheck e => exact Utf8.ofString_prefix _ _
  | execute f => exact Utf8.ofString_prefix _ _

/-! ## Places in a source -/

namespace Source

variable {src : Source}

/-- A token of the source starts at the position, or the source ends there. -/
def TokenAt (src : Source) (q : Pos) : Prop :=
  ∃ u, src.Holds u ∧ u.pos = q ∧ ∀ e, u ≠ .failed e

theorem TokenAt.isValid {q : Pos} (h : src.TokenAt q) : q.isValid = true := by
  obtain ⟨u, hu, rfl, -⟩ := h
  exact hu.isValid

theorem TokenAt.file_eq {q : Pos} (h : src.TokenAt q) : q.file = src.name := by
  obtain ⟨u, hu, rfl, -⟩ := h
  exact hu.file_eq

/-- A source that was read to its end and is a program is built from the positions of its
tokens. -/
theorem program_built (hread : src.failure = none) {p : Program Pos}
    (h : src.tokens.program = .ok p) : p.Built src.TokenAt := by
  have hnone : src.tokens.failure? = none := by
    cases hfailure : src.tokens.failure? with
    | none => rfl
    | some e =>
      rcases TokenStream.program_of_failure? hfailure with he | ⟨_, _, _, _, -, he⟩ <;>
      · rw [h] at he
        cases he
  refine TokenStream.program_built (TokenStream.placed_of_spells fun ws u hu => ?_) h
  refine ⟨u, holds_of_spells hread hu, rfl, ?_⟩
  rintro e rfl
  rw [hu.failure?_eq] at hnone
  cases hnone

/-- A source that could not be read is no program, whatever was delivered of it. -/
theorem program_of_failure {cause : String} (h : src.failure = some cause) :
    src.tokens.program = .error (.scan (.read src.name cause)) := by
  have htokens : src.tokens = .failed (.read src.name cause) := by rw [tokens, h]
  have hfailure : (TokenStream.failed (.read src.name cause)).failure? =
      some (.read src.name cause) := rfl
  rw [htokens]
  rcases TokenStream.program_of_failure? hfailure with he | ⟨ws, l, t, _, hs, -⟩
  · exact he
  · -- there is no token to blame
    cases ws with
    | nil => cases hs
    | cons w ws =>
      obtain ⟨p, t', hst, -⟩ := hs
      cases hst

end Source

/-! ## Failing runs -/

namespace Pipeline

/-- The phase in which a run fails, with what it fails and what it leaves the sink. -/
inductive Fails (typecheck : Bool) (sink : Sink σ) (out : σ) (src : Source) :
    Failure → σ → Prop where
  | lex {e} : src.tokens.program = .error (.scan e) → Fails typecheck sink out src (.lex e) out
  | parse {e} : src.tokens.program = .error (.parse e) →
      Fails typecheck sink out src (.parse e) out
  | typecheck {p e} : src.tokens.program = .ok p → typecheck = true → p.check.1 = .error e →
      Fails typecheck sink out src (.typecheck e) out
  | execute {p f out'} : src.tokens.program = .ok p → check typecheck p = .ok () →
      p.run sink out = (.error f, out') → Fails typecheck sink out src (.execute f) out'

variable {typecheck : Bool} {sink : Sink σ} {out out' : σ} {src : Source} {f : Failure}

theorem fails_of_run (h : run typecheck sink out src = (.error f, out')) :
    Fails typecheck sink out src f out' := by
  unfold run parse at h
  cases hprogram : src.tokens.program with
  | error e =>
    rw [hprogram] at h
    cases h
    cases e with
    | scan e => exact .lex hprogram
    | parse e => exact .parse hprogram
  | ok p =>
    rw [hprogram] at h
    dsimp only at h
    cases hcheck : check typecheck p with
    | error e =>
      rw [hcheck] at h
      cases h
      unfold check at hcheck
      split at hcheck
      · next htypecheck =>
        cases he : p.check.1 with
        | ok _ =>
          rw [he] at hcheck
          cases hcheck
        | error e' =>
          rw [he] at hcheck
          cases hcheck
          exact .typecheck hprogram htypecheck he
      · cases hcheck
    | ok _ =>
      rw [hcheck] at h
      dsimp only at h
      unfold execute at h
      cases hrun : p.run sink out with
      | mk result out₁ =>
        rw [hrun] at h
        cases result with
        | ok _ => cases h
        | error f' =>
          cases h
          exact .execute hprogram hcheck hrun

/-- **A source that could not be read fails in the first phase**, whatever was delivered of
it. -/
theorem run_of_failure {cause : String} (h : src.failure = some cause) (typecheck : Bool)
    (sink : Sink σ) (out : σ) :
    run typecheck sink out src = (.error (.lex (.read src.name cause)), out) := by
  rw [run, parse, src.program_of_failure h]
  rfl

/-- What is parsed was read to its end, and is built from the positions of its tokens. -/
theorem built_of_parse {p : Program Pos} (h : parse src = .ok p) : p.Built src.TokenAt := by
  unfold parse at h
  split at h
  · next hprogram =>
    cases h
    cases hread : src.failure with
    | none => exact Source.program_built hread hprogram
    | some cause =>
      rw [src.program_of_failure hread] at hprogram
      cases hprogram
  · cases h

/-- A syntax error is about something that the source holds. -/
theorem holds_of_program_error (hread : src.failure = none) {e : SyntaxError}
    (h : src.tokens.program = .error e) :
    ∃ u expected, src.Holds u ∧ e = Parser.reject expected u := by
  obtain ⟨ws, u, expected, hs, he⟩ := TokenStream.program_error_at h
  exact ⟨u, expected, Source.holds_of_spells hread hs, he⟩

/-- Where a failure stands in a source that was read to its end. -/
theorem Fails.located (h : Fails typecheck sink out src f out') (hread : src.failure = none) :
    (∃ e, f = .lex (.lex e) ∧ src.Holds (.failed (.lex e))) ∨
      f.phase ≠ .lex ∧ src.TokenAt f.pos := by
  cases h with
  | @lex e he =>
    obtain ⟨u, expected, hu, heq⟩ := holds_of_program_error hread he
    cases u with
    | eof q => cases heq
    | cons l t => cases heq
    | failed e' =>
      cases heq
      cases e with
      | lex e => exact .inl ⟨e, rfl, hu⟩
      | read file cause =>
        -- a source that was read holds no read error
        obtain ⟨-, _, _, -, -, hbegins⟩ := hu
        exact hbegins.elim
  | @parse e he =>
    obtain ⟨u, expected, hu, heq⟩ := holds_of_program_error hread he
    refine .inr ⟨nofun, ?_⟩
    cases u with
    | failed e' => cases heq
    | eof q =>
      cases heq
      exact ⟨_, hu, rfl, nofun⟩
    | cons l t =>
      cases heq
      exact ⟨_, hu, rfl, nofun⟩
  | typecheck hp _ he =>
    exact .inr ⟨nofun, (Source.program_built hread hp).check_error he⟩
  | execute hp _ hrun =>
    exact .inr ⟨nofun, (Source.program_built hread hp).run_fault hrun⟩

/-! ## Every failure -/

/-- **Every failure is of the phase that failed, and stands in the source.**  A source that
could not be read fails in the first phase, whatever was delivered of it.  Any failing run
carries the error that ended its phase: a lexical or read error, a parse error, a type error
or a fault.  It leaves the sink as it was, unless it fails while the program runs.  And if the
source was read to its end, then the message starts with a valid position in it, which is
where the rejected text starts for a lexical error, and where a token starts or the source
ends for every other failure. -/
theorem run_failure_located (typecheck : Bool) (sink : Sink σ) (out : σ) (src : Source) :
    (∀ cause, src.failure = some cause →
      run typecheck sink out src = (.error (.lex (.read src.name cause)), out)) ∧
    ∀ f out', run typecheck sink out src = (.error f, out') →
      (f.phase = .lex ↔ ∃ e, src.tokens.program = .error (.scan e) ∧ f = .lex e) ∧
      (f.phase = .parse ↔ ∃ e, src.tokens.program = .error (.parse e) ∧ f = .parse e) ∧
      (f.phase = .typecheck ↔ ∃ p e, src.tokens.program = .ok p ∧ typecheck = true ∧
        p.check.1 = .error e ∧ f = .typecheck e) ∧
      (f.phase = .execute ↔ ∃ p e, src.tokens.program = .ok p ∧
        p.run sink out = (.error e, out') ∧ f = .execute e) ∧
      (f.phase ≠ .execute → out' = out) ∧
      (src.failure = none →
        f.pos.isValid = true ∧ f.pos.file = src.name ∧
        Utf8.ofString (f.pos.text ++ ": ") <+: f.message ∧
        (f.phase = .lex → ∃ e, f = .lex (.lex e) ∧ src.Holds (.failed (.lex e))) ∧
        (f.phase ≠ .lex → src.TokenAt f.pos)) := by
  refine ⟨fun cause h => run_of_failure h typecheck sink out, fun f out' h => ?_⟩
  have hfails := fails_of_run h
  refine ⟨?_, ?_, ?_, ?_, ?_, fun hread => ?_⟩
  · cases hfails with
    | lex he => exact iff_of_true rfl ⟨_, he, rfl⟩
    | _ => exact iff_of_false nofun fun ⟨_, _, he⟩ => nomatch he
  · cases hfails with
    | parse he => exact iff_of_true rfl ⟨_, he, rfl⟩
    | _ => exact iff_of_false nofun fun ⟨_, _, he⟩ => nomatch he
  · cases hfails with
    | typecheck hp htypecheck he => exact iff_of_true rfl ⟨_, _, hp, htypecheck, he, rfl⟩
    | _ => exact iff_of_false nofun fun ⟨_, _, _, _, _, he⟩ => nomatch he
  · cases hfails with
    | execute hp _ hrun => exact iff_of_true rfl ⟨_, _, hp, hrun, rfl⟩
    | _ => exact iff_of_false nofun fun ⟨_, _, _, _, he⟩ => nomatch he
  · cases hfails with
    | execute => exact fun hphase => absurd rfl hphase
    | _ => exact fun _ => rfl
  · rcases hfails.located hread with ⟨e, rfl, hholds⟩ | ⟨hphase, hat⟩
    · have hmessage := Failure.position_prefix_message (f := .lex (.lex e)) nofun
      exact ⟨hholds.isValid, hholds.file_eq, hmessage, fun _ => ⟨e, rfl, hholds⟩,
        fun hphase => absurd rfl hphase⟩
    · have hmessage := Failure.position_prefix_message (f := f) fun _ _ hf =>
        hphase (congrArg Failure.phase hf)
      exact ⟨hat.isValid, hat.file_eq, hmessage, fun h => absurd h hphase, fun _ => hat⟩

/-- The source `print x`, in which nothing is called `x`. -/
def printName : Source := { name := "f", bytes := Utf8.ofString "print x" }

theorem parse_printName :
    parse printName = .ok ⟨⟨"f", 1, 1⟩, .cons ⟨"f", 1, 1⟩
      (.print ⟨"f", 1, 1⟩ (.name ⟨"f", 1, 7⟩ "x")) (.empty ⟨"f", 1, 8⟩)⟩ := by
  have htokens : printName.tokens = .cons ⟨.keyword .printKw, ⟨"f", 1, 1⟩⟩
      (.cons ⟨.name "x", ⟨"f", 1, 7⟩⟩ (.eof ⟨"f", 1, 8⟩)) := by decide +kernel
  rw [parse, htokens, TokenStream.program_print rfl (Parser.operand_of_name.2 ⟨rfl, rfl⟩)
    (.inl rfl)]

/-- Unchecked, `print x` fails while it runs, and what is to blame is the name. -/
theorem run_failure_located_printName :
    run true .all "" ⟨"f", [], some "is a directory"⟩ =
      (.error (.lex (.read "f" "is a directory")), "") ∧
    run false .all "" printName =
      (.error (.execute ⟨⟨"f", 1, 7⟩, .scope (.undeclared "x")⟩), "") ∧
    printName.TokenAt ⟨"f", 1, 7⟩ := by
  have hrun : run false .all "" printName =
      (.error (.execute ⟨⟨"f", 1, 7⟩, .scope (.undeclared "x")⟩), "") := by
    rw [run, parse_printName]
    rfl
  have hlocated := (run_failure_located false .all "" printName).2 _ _ hrun
  exact ⟨(run_failure_located true .all "" _).1 _ rfl, hrun,
    (hlocated.2.2.2.2.2 rfl).2.2.2.2 nofun⟩

end Pipeline

end PairDict
