import PairDict.Proofs.Typing.Printed
import PairDict.Proofs.Typing.Tabled

/-! # A mismatch is one

Two types are identical if and only if they are written alike, since the text of a type settles
the type (`Ty.identical_iff_text`).  So an error that names two types by their texts never says
the same twice, unless the checker has complained of types that are identical.

It does not.  A fault is **justified** if it is no mismatch, or one of a type that does not
meet the requirement (`TypeFault.Justified`).  Every step of a checker that fails, fails with a
justified fault: there are three places where mismatches come from (`require`, `Check.needPair`,
`Check.needDict`), and all others pass on what the steps before have said.

Where any pair or any dictionary would do, the requirement has a text that no type has.
-/
namespace PairDict

variable {α β γ : Type}

/-! ## Texts -/

theorem Ty.text_injective {t u : Ty} (h : t.text = u.text) : t = u := by
  have htext : t.text.toList ++ [] = u.text.toList ++ [] := by rw [h]
  exact (text_append_inj htext).1

/-- **Types are identical if and only if they are written alike.** -/
theorem Ty.identical_iff_text {x y : Ty} : x.identical y = true ↔ x.text = y.text := by
  rw [identical_iff]
  exact ⟨congrArg text, text_injective⟩

theorem Ty.identical_equivalence : Equivalence fun x y : Ty => x.identical y = true where
  refl _ := identical_iff.2 rfl
  symm h := identical_iff.2 (identical_iff.1 h).symm
  trans h h' := identical_iff.2 ((identical_iff.1 h).trans (identical_iff.1 h'))

/-- The types that meet a requirement. -/
def Expected.Admits : Expected → Ty → Prop
  | .type t, u => u = t
  | .anyPair, u => ∃ x y, u = .pair x y
  | .anyDict, u => ∃ t, u = .dict t

/-- A type that is written as a requirement is written meets it. -/
theorem Expected.admits_of_text {expected : Expected} {t : Ty} (h : t.text = expected.text) :
    expected.Admits t := by
  cases expected with
  | type u => exact Ty.text_injective h
  | anyPair =>
    have hlist : t.text.toList = ['p', 'a', 'i', 'r'] := congrArg String.toList h
    cases t <;> simp at hlist
  | anyDict =>
    have hlist : t.text.toList = ['d', 'i', 'c', 't', 'i', 'o', 'n', 'a', 'r', 'y'] :=
      congrArg String.toList h
    cases t <;> simp at hlist

/-! ## Justified faults -/

/-- A mismatch is of a type that does not meet the requirement. -/
def TypeFault.Justified : TypeFault → Prop
  | .mismatch found expected => ¬ expected.Admits found
  | _ => True

namespace Checker

/-- What ends the step early is justified. -/
def Justified (step : Checking α β) : Prop :=
  ∀ c f c', step c = .error f c' → f.fault.Justified

namespace Justified

variable {step : Checking α β} {next : β → Checking α γ} {find x y base key value : Checking α Ty}

theorem pure (b : β) : Justified (pure b : Checking α β) := nofun

theorem throw {f : TypeError α} (h : f.fault.Justified) :
    Justified (throw f : Checking α β) := by
  intro c g c' hstep
  cases hstep
  exact h

theorem ofExcept {r : Except (TypeError α) β} (h : ∀ f, r = .error f → f.fault.Justified) :
    Justified (ofExcept r) := by
  intro c f c' hstep
  cases r with
  | ok b => cases hstep
  | error g =>
    cases hstep
    exact h f rfl

/-- One step after another. -/
theorem bind (h : Justified step) (hnext : ∀ b, Justified (next b)) :
    Justified (step >>= next) := by
  intro c f c' hrun
  have hbind : EStateM.bind step next c = .error f c' := hrun
  rw [EStateM.bind] at hbind
  cases hstep : step c with
  | ok b c₁ =>
    rw [hstep] at hbind
    exact hnext b c₁ f c' hbind
  | error g c₁ =>
    rw [hstep] at hbind
    cases hbind
    exact h c f c' hstep

theorem lookup (a : α) (x : String) : Justified (lookup a x) := by
  intro c f c'
  refine ofExcept (fun g hg => ?_) c f c'
  rw [Check.lookup] at hg
  cases hx : c.scope.lookup x with
  | ok t =>
    rw [hx] at hg
    cases hg
  | error e =>
    rw [hx] at hg
    cases hg
    trivial

theorem entering (path : List Nat) (h : Justified find) : Justified (entering path find) :=
  h.bind fun _ => .bind nofun fun _ => .pure _

/-- A type is refused that is not the one which is required. -/
theorem require (a : α) (want : Ty) (h : Justified find) : Justified (require a want find) := by
  refine h.bind fun t => ?_
  split
  · exact .pure t
  · next hne => exact .throw fun hadmits : t = want => hne (Ty.identical_iff.2 hadmits)

/-- What is refused as a pair is none. -/
theorem needPair (a : α) (t : Ty) : Justified (Checker.ofExcept (Check.needPair a t)) := by
  refine .ofExcept fun f hf => ?_
  cases t with
  | pair x y => cases hf
  | _ =>
    cases hf
    rintro ⟨x, y, ⟨⟩⟩

/-- What is refused as a dictionary is none. -/
theorem needDict (a : α) (t : Ty) : Justified (Checker.ofExcept (Check.needDict a t)) := by
  refine .ofExcept fun f hf => ?_
  cases t with
  | dict t => cases hf
  | _ =>
    cases hf
    rintro ⟨t, ⟨⟩⟩

/-! ## Expressions -/

theorem unary (a : α) (op : Token) (ax : α) (hx : Justified x) :
    Justified (unary a op ax x) := by
  unfold Checker.unary
  split
  · exact .require ax .int hx
  · exact .require ax .bool hx
  · exact hx.bind fun t => (needPair ax t).bind fun p => .pure p.1
  · exact hx.bind fun t => (needPair ax t).bind fun p => .pure p.2
  · exact .throw trivial

theorem uniform (t : Ty) (ax ay : α) (hx : Justified x) (hy : Justified y) :
    Justified (uniform t ax ay x y) :=
  (hx.require ax t).bind fun _ => hy.require ay t

theorem binary (a : α) (op : Token) (ax ay : α) (hx : Justified x) (hy : Justified y) :
    Justified (binary a op ax ay x y) := by
  unfold Checker.binary
  split
  · exact .uniform .int ax ay hx hy
  · exact .uniform .int ax ay hx hy
  · exact .uniform .bool ax ay hx hy
  · exact hx.bind fun s => (hy.require ay s).bind fun _ => .pure _
  · exact .throw trivial

theorem entry (ak : α) (hkey : Justified key) (hvalue : Justified value) :
    Justified (entry ak key value) :=
  (hkey.require ak Ty.key).bind fun _ => hvalue.bind fun _ => .pure _

theorem based (ad ak : α) (hbase : Justified base) (hkey : Justified key) :
    Justified (based ad ak base key) :=
  (hkey.require ak Ty.key).bind fun _ => hbase.bind fun t => needDict ad t

theorem select (a : α) (op : SelectOp) (ad ak : α) (hbase : Justified base)
    (hkey : Justified key) : Justified (select a op ad ak base key) := by
  refine (hbase.based ad ak hkey).bind fun t => ?_
  cases op with
  | get => exact .pure t
  | delete => exact .pure _
  | other n => exact .throw trivial

theorem store (a : α) (op : DictOp) (ad ak av : α) (hbase : Justified base)
    (hkey : Justified key) (hvalue : Justified value) :
    Justified (store a op ad ak av base key value) := by
  have hbased := hbase.based ad ak hkey
  cases op with
  | create => exact .entry ak hkey hvalue
  | get => exact hbased.bind fun t => .pure t
  | delete => exact hbased.bind fun t => .pure _
  | update => exact hbased.bind fun t => (hvalue.require av t).bind fun _ => .pure _
  | other n => exact hbased.bind fun _ => .throw trivial

theorem expr (path : List Nat) (e : Expr α) : Justified (expr path e) := by
  induction e generalizing path with
  | name a x => exact (lookup a x).entering path
  | int a n => exact .entering path (.pure _)
  | bool a b => exact .entering path (.pure _)
  | pair a x y ihx ihy =>
    exact .entering path ((ihx _).bind fun s => (ihy _).bind fun t => .pure _)
  | unary a op x ih => exact .entering path ((ih _).unary a op x.ann)
  | binary a op x y ihx ihy => exact .entering path ((ihx _).binary a op x.ann y.ann (ihy _))
  | entry a k v ihk ihv => exact .entering path ((ihk _).entry k.ann (ihv _))
  | select a op d k ihd ihk => exact .entering path ((ihd _).select a op d.ann k.ann (ihk _))
  | store a op d k v ihd ihk ihv =>
    exact .entering path ((ihd _).store a op d.ann k.ann v.ann (ihk _) (ihv _))

/-! ## Statements -/

theorem declare (path : List Nat) (x : Ident α) (t : Ty) : Justified (declare path x t) := by
  intro c f c' hstep
  rw [Checker.declare] at hstep
  cases hx : c.scope.declare x.name t with
  | ok s =>
    rw [hx] at hstep
    cases hstep
  | error e =>
    rw [hx] at hstep
    cases hstep
    trivial

theorem inFrame {step : Checking α Unit} (h : Justified step) : Justified (inFrame step) := by
  intro c f c' hrun
  rw [Checker.inFrame] at hrun
  cases hstep : step { c with scope := c.scope.enter } with
  | ok u c₁ =>
    rw [hstep] at hrun
    cases hrun
  | error g c₁ =>
    rw [hstep] at hrun
    cases hrun
    exact h _ _ _ hstep

mutual

theorem stmt : ∀ (path : List Nat) (s : Stmt α), Justified (stmt path s)
  | _, .var _ x e => (expr _ e).bind fun t => declare _ x t
  | _, .assign _ x e =>
    (lookup x.ann x.name).bind fun t => ((expr _ e).require e.ann t).bind fun _ => .pure ()
  | _, .print _ e => (expr _ e).bind fun _ => .pure ()
  | _, .ifThen _ c t => ((expr _ c).require c.ann .bool).bind fun _ => block _ t
  | _, .ifElse _ c t e =>
    ((expr _ c).require c.ann .bool).bind fun _ => (block _ t).bind fun _ => block _ e
  | _, .forEach _ x d b =>
    (expr _ d).bind fun t => (needDict d.ann t).bind fun u =>
      inFrame ((declare _ x (Ty.entry u)).bind fun _ => block _ b)
  | path, .block b => block path b

theorem block : ∀ (path : List Nat) (b : Block α), Justified (block path b)
  | _, .mk _ s _ => inFrame (seq _ s)

theorem seq : ∀ (path : List Nat) (s : Seq α), Justified (seq path s)
  | _, .empty _ => .pure ()
  | _, .cons _ s rest => (stmt _ s).bind fun _ => seq _ rest

end

end Justified

end Checker

/-- **Every fault of a program is justified.** -/
theorem Program.check_justified {p : Program α} {f : TypeError α} (h : p.check.1 = .error f) :
    f.fault.Justified := by
  have hinto : (p.checkInto none).1 = .error f := by
    rw [checkInto_eq]
    exact h
  rw [checkInto] at hinto
  cases hseq : Checker.seq [0] p.body ⟨.empty, none⟩ with
  | ok u c =>
    rw [hseq] at hinto
    cases hinto
  | error g c =>
    rw [hseq] at hinto
    cases hinto
    exact Checker.Justified.seq _ p.body _ _ _ hseq

/-- **Types are identical if and only if they are written alike, and no mismatch contradicts
itself.**  When a program is rejected because a type was found where another one, any pair or
any dictionary was expected, then the type that was found does not meet what was expected, and
the two are written differently. -/
theorem Program.mismatch_differs (p : Program α) :
    (∀ x y : Ty, x.identical y = true ↔ x.text = y.text) ∧
    (Equivalence fun x y : Ty => x.identical y = true) ∧
    ∀ a found expected, p.check.1 = .error ⟨a, .mismatch found expected⟩ →
      ¬ expected.Admits found ∧ found.text ≠ expected.text := by
  refine ⟨fun _ _ => Ty.identical_iff_text, Ty.identical_equivalence, ?_⟩
  intro a found expected h
  have hadmits : ¬ expected.Admits found := check_justified h
  exact ⟨hadmits, fun htext => hadmits (Expected.admits_of_text htext)⟩

/-- `print fst 1` -/
def Program.printFirst : Program Unit :=
  ⟨(), .cons () (.print () (.unary () (.keyword .fst) (.int () 1))) (.empty ())⟩

/-- In `print fst 1` an `int` is found where a pair was expected. -/
theorem Program.mismatch_differs_printFirst :
    printFirst.check.1 = .error ⟨(), .mismatch .int .anyPair⟩ ∧
      ¬ Expected.anyPair.Admits .int ∧ Ty.int.text ≠ Expected.anyPair.text := by
  have h : printFirst.check.1 = .error ⟨(), .mismatch .int .anyPair⟩ := rfl
  exact ⟨h, (mismatch_differs printFirst).2.2 () .int .anyPair h⟩

end PairDict
