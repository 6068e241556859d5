import PairDict.Proofs.Grammar.CorrectPrefix
import PairDict.Proofs.Tree.Relabel
import PairDict.Pipeline

/-! # Layout does not matter

Two layouts of the same words are two texts with the same words in other places.  Reading
them gives the same words, at other positions.  Parsing gives trees of the same shape, or
errors which expect and find the same (`TokenStream.program_alike`).  And what is computed
from a tree depends on its annotations only where an error repeats them.

So from one layout to another nothing changes in a run but the positions that a failure
reports (`Pipeline.run_of_layouts`).  `unplaced` is a failure without its positions.
-/
namespace PairDict

open Grammar

/-! ## Failures without positions -/

/-- The error without its position. -/
def LexError.unplaced : LexError → LexError
  | .unrecognized _ gs => .unrecognized .none gs
  | .outOfRange _ s => .outOfRange .none s

/-- The error without its position. -/
def ScanError.unplaced : ScanError → ScanError
  | .lex e => .lex e.unplaced
  | .read file cause => .read file cause

/-- The error without its position. -/
def ParseError.unplaced (e : ParseError) : ParseError := { e with pos := .none }

/-- The failure without its position. -/
def Failure.unplaced : Failure → Failure
  | .lex e => .lex e.unplaced
  | .parse e => .parse e.unplaced
  | .typecheck e => .typecheck (e.map fun _ => .none)
  | .execute f => .execute (f.map fun _ => .none)

/-- Both outcomes are a success, or both are failures of one phase that differ in their
positions only. -/
inductive SameOutcome : Except Failure Unit → Except Failure Unit → Prop where
  | ok : SameOutcome (.ok ()) (.ok ())
  | error {f f' : Failure} : f.phase = f'.phase → f.unplaced = f'.unplaced →
      SameOutcome (.error f) (.error f')

/-! ## Parsing -/

/-- What spells some of the words of a stream is followed by the others. -/
theorem Spells.split {ws ws' : List Word} {s u r : TokenStream} (h : Spells ws s u)
    (h' : Spells ws' s r) (hr : ∀ l t, r ≠ .cons l t) :
    ∃ more, ws' = ws ++ more ∧ Spells more u r := by
  induction ws generalizing ws' s with
  | nil =>
    cases h
    exact ⟨ws', rfl, h'⟩
  | cons w ws ih =>
    obtain ⟨p, t, rfl, ht⟩ := h
    cases ws' with
    | nil =>
      cases h'
      exact absurd rfl (hr _ _)
    | cons w' ws' =>
      obtain ⟨p', t', hst, ht'⟩ := h'
      cases hst
      obtain ⟨more, rfl, hmore⟩ := ih ht ht'
      exact ⟨more, rfl, hmore⟩

variable {s s' : TokenStream} {p q : Pos} {ws : List Word}

/-- **The same words make the same program, or the same error.** -/
theorem TokenStream.program_alike (hs : Spells ws s (.eof p)) (hs' : Spells ws s' (.eof q)) :
    (∃ a b, s.program = .ok a ∧ s'.program = .ok b ∧ a.shape = b.shape) ∨
      ∃ e e', s.program = .error (.parse e) ∧ s'.program = .error (.parse e') ∧
        e.unplaced = e'.unplaced := by
  by_cases hok : ∃ a, s.program = .ok a
  · obtain ⟨a, ha⟩ := hok
    obtain ⟨body, r, hread, rfl⟩ := program_eq_ok_iff.1 ha
    obtain ⟨d, hd, htree⟩ := Parser.seq_derives hread
    have hwords : d.words = ws := by
      rw [(Spells.eof_iff.1 ⟨r, hd⟩).2, (Spells.eof_iff.1 ⟨p, hs⟩).2]
    rw [← hwords] at hs'
    obtain ⟨body', htree', hread'⟩ := d.read hs' (.inr rfl)
    refine .inl ⟨_, ⟨s'.pos, body'⟩, ha, program_eq_ok_iff.2 ⟨body', q, hread', rfl⟩, ?_⟩
    exact congrArg (Program.mk ()) (htree.symm.trans htree'.symm)
  · obtain ⟨ws₁, u, expected, hu, -, hfails⟩ := program_settled (not_exists.1 hok)
    obtain ⟨more, rfl, hmore⟩ := hu.split hs nofun
    obtain ⟨u', hu', hmore'⟩ := Spells.append_iff.1 hs'
    have hfront : SameFront u u' := SameFront.eof.of_spells hmore hmore'
    have he := hfails s u hu (.refl u)
    have he' := hfails s' u' hu' hfront
    cases hfront with
    | eof => exact .inr ⟨_, _, he, he', rfl⟩
    | cons => exact .inr ⟨_, _, he, he', rfl⟩
    | failed =>
      -- a stream that has failed does not end with its source
      cases more with
      | nil => cases hmore
      | cons w more =>
        obtain ⟨_, _, hst, -⟩ := hmore
        cases hst

/-! ## Checking and running -/

namespace Except

variable {ε ε' ε'' γ : Type} {f : ε → ε''} {g : ε' → ε''}

/-- Outcomes that are the same but for their errors. -/
theorem mapError_eq_cases {x : Except ε γ} {y : Except ε' γ} (h : x.mapError f = y.mapError g) :
    (∃ c, x = .ok c ∧ y = .ok c) ∨ ∃ e e', x = .error e ∧ y = .error e' ∧ f e = g e' := by
  cases x with
  | ok c =>
    cases y with
    | ok c' =>
      cases h
      exact .inl ⟨c, rfl, rfl⟩
    | error e' => cases h
  | error e =>
    cases y with
    | ok c' => cases h
    | error e' => exact .inr ⟨e, e', rfl, rfl, Except.error.inj h⟩

end Except

namespace Pipeline

variable {σ : Type} {a b : Program Pos}

theorem check_same (h : a.shape = b.shape) (typecheck : Bool) :
    SameOutcome (check typecheck a) (check typecheck b) := by
  cases typecheck with
  | false => exact .ok
  | true =>
    have hshape : a.check.1.mapError (TypeError.map blank) =
        b.check.1.mapError (TypeError.map blank) := by
      rw [← Program.check_map, ← Program.check_map]
      exact congrArg (fun p => p.check.1) h
    simp only [check, if_true]
    rcases Except.mapError_eq_cases hshape with ⟨c, ha, hb⟩ | ⟨e, e', ha, hb, he⟩
    · rw [ha, hb]
      exact .ok
    · rw [ha, hb]
      refine .error rfl ?_
      have hfault : (e.map blank).fault = (e'.map blank).fault := by rw [he]
      exact congrArg (fun fault => Failure.typecheck ⟨.none, fault⟩) hfault

theorem execute_same (h : a.shape = b.shape) (sink : Sink σ) (out : σ) :
    SameOutcome (execute sink out a).1 (execute sink out b).1 ∧
      (execute sink out a).2 = (execute sink out b).2 := by
  have hshape : ((a.run sink out).1.mapError (Fault.map blank), (a.run sink out).2) =
      ((b.run sink out).1.mapError (Fault.map blank), (b.run sink out).2) := by
    rw [← Program.run_map, ← Program.run_map]
    exact congrArg (Program.run sink out) h
  obtain ⟨hresult, hout⟩ := Prod.mk.inj hshape
  unfold execute
  generalize a.run sink out = x at hresult hout
  generalize b.run sink out = y at hresult hout
  obtain ⟨x, out₁⟩ := x
  obtain ⟨y, out₂⟩ := y
  rcases Except.mapError_eq_cases hresult with ⟨c, rfl, rfl⟩ | ⟨e, e', rfl, rfl, he⟩
  · exact ⟨.ok, hout⟩
  · refine ⟨.error rfl ?_, hout⟩
    have hcause : (e.map blank).cause = (e'.map blank).cause := by rw [he]
    exact congrArg (fun cause => Failure.execute ⟨.none, cause⟩) hcause

/-- Programs of one shape have one outcome. -/
theorem run_same {src src' : Source} (ha : parse src = .ok a) (hb : parse src' = .ok b)
    (h : a.shape = b.shape) (typecheck : Bool) (sink : Sink σ) (out : σ) :
    SameOutcome (run typecheck sink out src).1 (run typecheck sink out src').1 ∧
      (run typecheck sink out src).2 = (run typecheck sink out src').2 := by
  have hcheck := check_same h typecheck
  simp only [run, ha, hb]
  generalize check typecheck a = x at hcheck
  generalize check typecheck b = y at hcheck
  cases hcheck with
  | ok => exact execute_same h sink out
  | error hphase hunplaced => exact ⟨.error hphase hunplaced, rfl⟩

/-- **Layout does not matter.**  The words of a layout are read from it, whatever its gaps
are; and two layouts of the same words run to the same output and to the same outcome,
positions apart. -/
theorem run_of_layouts {bytes bytes' : List UInt8} (h : Scan.Layout ws bytes)
    (h' : Scan.Layout ws bytes') (name name' : String) :
    ((Source.mk name bytes none).tokens.lexemes.map Lexeme.word = ws ∧
      (Source.mk name bytes none).tokens.failure? = none) ∧
    ∀ (typecheck : Bool) (sink : Sink σ) (out : σ),
      SameOutcome (run typecheck sink out ⟨name, bytes, none⟩).1
        (run typecheck sink out ⟨name', bytes', none⟩).1 ∧
      (run typecheck sink out ⟨name, bytes, none⟩).2 =
        (run typecheck sink out ⟨name', bytes', none⟩).2 := by
  obtain ⟨p, hp⟩ := h.spells name
  obtain ⟨q, hq⟩ := h'.spells name'
  obtain ⟨hfailure, hwords⟩ := Spells.eof_iff.1 ⟨p, hp⟩
  refine ⟨⟨hwords.symm, hfailure⟩, fun typecheck sink out => ?_⟩
  rcases TokenStream.program_alike hp hq with ⟨a, b, ha, hb, hshape⟩ | ⟨e, e', he, he', hsame⟩
  · have hparse : parse ⟨name, bytes, none⟩ = .ok a := by rw [parse, ha]
    have hparse' : parse ⟨name', bytes', none⟩ = .ok b := by rw [parse, hb]
    exact run_same hparse hparse' hshape typecheck sink out
  · have hparse : parse ⟨name, bytes, none⟩ = .error (.parse e) := by rw [parse, he]; rfl
    have hparse' : parse ⟨name', bytes', none⟩ = .error (.parse e') := by rw [parse, he']; rfl
    simp only [run, hparse, hparse']
    exact ⟨.error rfl (congrArg Failure.parse hsame), trivial⟩

/-- The words `print x` on one line, and with comments around them. -/
theorem run_of_layouts_printName :
    let words := [Word.keyword .printKw, Word.name "x"]
    let line := Source.mk "line" (Utf8.ofString "print x") none
    let lines := Source.mk "lines" (Utf8.ofString "// one\n print//x\n x//") none
    (Scan.Layout words line.bytes ∧ Scan.Layout words lines.bytes) ∧
      (line.tokens.lexemes.map Lexeme.word = words ∧ line.tokens.failure? = none) ∧
      SameOutcome (run true .all "" line).1 (run true .all "" lines).1 ∧
      (run true .all "" line).2 = (run true .all "" lines).2 := by
  intro words line lines
  have hprint : (Word.keyword .printKw).Spellable := trivial
  have hx : (Word.name "x").Spellable := spellable_x
  have hblank : Scan.Gap [' '.toUInt8] := .blank (by decide) .nil
  have hone : Scan.Gap _ := @Scan.Gap.comment (Utf8.ofString " one") _ (by decide) hblank
  have htwo : Scan.Gap _ := @Scan.Gap.comment (Utf8.ofString "x") _ (by decide) hblank
  have hlast : Scan.LastGap _ := @Scan.LastGap.unclosed [] [] .nil nofun
  have hline : Scan.Layout words line.bytes := by
    refine ⟨_, _, .nil, .cons hprint hblank (.inl (List.cons_ne_nil _ _))
      (.cons hx .nil (.inr rfl) (.nil (.closed .nil))), ?_⟩
    decide +kernel
  have hlines : Scan.Layout words lines.bytes := by
    refine ⟨_, _, hone, .cons hprint htwo (.inl (List.cons_ne_nil _ _))
      (.cons hx .nil (.inr rfl) (.nil hlast)), ?_⟩
    decide +kernel
  obtain ⟨hwords, hrun⟩ := run_of_layouts hline hlines "line" "lines"
  exact ⟨⟨hline, hlines⟩, hwords, hrun true .all ""⟩

end Pipeline

end PairDict
