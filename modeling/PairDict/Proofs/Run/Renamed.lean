import PairDict.Proofs.Tree.Rename

/-! # Running a renamed tree

Values hold no names.  So an expression in which every name is renamed by an injective
function has, in the renamed scope, the value that it had, or the fault that it had with
the name in it renamed (`Expr.eval_rename`).

A step of execution **renames** if it leads from renamed machines to the renamed outcomes
(`Exec.Renames`).  The steps of a renamed statement do, one after another, in frames of
their own and in loops; what they print does not change.
-/
namespace PairDict

variable {α σ : Type} {f : String → String}

/-! ## Faults -/

/-- The cause with the name in it renamed, if it has one. -/
def Cause.rename (f : String → String) : Cause → Cause
  | .scope e => .scope (e.rename f)
  | c => c

/-- The fault with the name in it renamed, if it has one. -/
def Fault.rename (f : String → String) (e : Fault α) : Fault α := ⟨e.ann, e.cause.rename f⟩

/-! ## Evaluation -/

namespace Eval

@[simp] theorem needInt_mapError_rename (f : String → String) (a : α) (v : Value) :
    (needInt a v).mapError (Fault.rename f) = needInt a v := by
  cases v <;> rfl

@[simp] theorem needBool_mapError_rename (f : String → String) (a : α) (v : Value) :
    (needBool a v).mapError (Fault.rename f) = needBool a v := by
  cases v <;> rfl

@[simp] theorem needPair_mapError_rename (f : String → String) (a : α) (v : Value) :
    (needPair a v).mapError (Fault.rename f) = needPair a v := by
  cases v <;> rfl

@[simp] theorem needDict_mapError_rename (f : String → String) (a : α) (v : Value) :
    (needDict a v).mapError (Fault.rename f) = needDict a v := by
  cases v <;> rfl

@[simp] theorem fetch_mapError_rename (f : String → String) (a : α) (d : Dict) (key : Int64) :
    (fetch a d key).mapError (Fault.rename f) = fetch a d key := by
  unfold fetch
  cases d.get? key <;> rfl

@[simp] theorem remove_mapError_rename (f : String → String) (a : α) (d : Dict) (key : Int64) :
    (remove a d key).mapError (Fault.rename f) = remove a d key := by
  rw [remove, Except.mapError_bind, fetch_mapError_rename]
  rfl

end Eval

open Eval in
/-- **Evaluation depends on names only through the scope.** -/
theorem Expr.eval_rename (hf : Function.Injective f) (s : Scope Value) (e : Expr α) :
    (e.rename f).eval (s.rename f) = (e.eval s).mapError (Fault.rename f) := by
  induction e with
  | name a x =>
    simp only [rename, eval, Scope.lookup_rename hf]
    cases s.lookup x <;> rfl
  | int a n | bool a b => rfl
  | pair a x y ihx ihy =>
    simp only [rename, eval, ihx, ihy, Except.mapError_bind]
    rfl
  | unary a op x ih =>
    simp only [rename, eval, ih, ann_rename]
    split
    · simp only [Except.mapError_bind, needInt_mapError_rename]
      rfl
    · simp only [Except.mapError_bind, needBool_mapError_rename]
      rfl
    · simp only [Except.mapError_bind, needPair_mapError_rename]
      rfl
    · simp only [Except.mapError_bind, needPair_mapError_rename]
      rfl
    · rfl
  | binary a op x y ihx ihy =>
    simp only [rename, eval, ihx, ihy, ann_rename]
    split
    · simp only [Except.mapError_bind, needInt_mapError_rename]
      rfl
    · simp only [Except.mapError_bind, needInt_mapError_rename]
      rfl
    · simp only [Except.mapError_bind, needBool_mapError_rename,
        apply_ite (Except.mapError (Fault.rename f))]
      rfl
    · simp only [Except.mapError_bind]
      rfl
    · rfl
  | entry a k v ihk ihv =>
    simp only [rename, eval, ihk, ihv, ann_rename, Except.mapError_bind, needInt_mapError_rename]
    rfl
  | select a op d k ihd ihk =>
    simp only [rename, eval, ihd, ihk, ann_rename, Except.mapError_bind, needInt_mapError_rename,
      needDict_mapError_rename]
    cases op with
    | get => simp only [fetch_mapError_rename]
    | delete => simp only [remove_mapError_rename]
    | other => rfl
  | store a op d k v ihd ihk ihv =>
    cases op <;> simp only [rename, eval, ihd, ihk, ihv, ann_rename, Except.mapError_bind,
      needInt_mapError_rename, needDict_mapError_rename, fetch_mapError_rename,
      remove_mapError_rename] <;> rfl

/-! ## Execution -/

/-- Rename every variable of a machine. -/
def Machine.rename (f : String → String) (m : Machine σ) : Machine σ :=
  { m with scope := m.scope.rename f }

namespace Exec

variable {γ δ : Type}

/-- The outcome on the renamed machine, with the name in a fault renamed. -/
def renamed (f : String → String) :
    EStateM.Result (Fault α) (Machine σ) γ → EStateM.Result (Fault α) (Machine σ) γ
  | .ok c m => .ok c (m.rename f)
  | .error e m => .error (e.rename f) (m.rename f)

/-- The step `step'` does to the renamed machines what `step` does to the machines. -/
def Renames (f : String → String) (step step' : Run α σ γ) : Prop :=
  ∀ m, step' (m.rename f) = renamed f (step m)

namespace Renames

variable {step step' : Run α σ γ} {next next' : γ → Run α σ δ}

theorem bind (h : Renames f step step') (hnext : ∀ c, Renames f (next c) (next' c)) :
    Renames f (step >>= next) (step' >>= next') := by
  intro m
  show EStateM.bind step' next' (m.rename f) = renamed f (EStateM.bind step next m)
  unfold EStateM.bind
  rw [h m]
  cases step m with
  | ok c m' => exact hnext c m'
  | error e m' => rfl

theorem pure (c : γ) : Renames f (Pure.pure c : Run α σ γ) (Pure.pure c) := fun _ => rfl

/-- A fault without a name in it. -/
theorem throw {x : Except (Fault α) δ} {e : Fault α} (hx : x = .error e)
    (h : x.mapError (Fault.rename f) = x) :
    Renames f (throw e : Run α σ γ) (MonadExcept.throw e) := by
  subst hx
  have he : e.rename f = e := Except.error.inj h
  intro m
  show EStateM.Result.error e (m.rename f) = .error (e.rename f) (m.rename f)
  rw [he]

theorem value (hf : Function.Injective f) (e : Expr α) :
    Renames f (value e : Run α σ Value) (value (e.rename f)) := by
  intro m
  have heval : (e.rename f).eval (m.rename f).scope = (e.eval m.scope).mapError (Fault.rename f) :=
    Expr.eval_rename hf m.scope e
  unfold Exec.value
  rw [heval]
  cases e.eval m.scope <;> rfl

/-- A change of the scope that does the same to the renamed scope. -/
theorem rescope (a : α) {change change' : Scope Value → Except ScopeError (Scope Value)}
    (h : ∀ s : Scope Value, change' (s.rename f) =
      ((change s).map (Scope.rename f)).mapError (ScopeError.rename f)) :
    Renames f (rescope a change : Run α σ Unit) (rescope a change') := by
  intro m
  have hscope : change' (m.rename f).scope = _ := h m.scope
  unfold Exec.rescope
  rw [hscope]
  cases change m.scope <;> rfl

theorem declare (hf : Function.Injective f) (x : Ident α) (v : Value) :
    Renames f (declare x v : Run α σ Unit) (declare (x.rename f) v) :=
  rescope x.ann fun s => s.declare_rename hf x.name v

theorem assign (hf : Function.Injective f) (x : Ident α) (v : Value) :
    Renames f (assign x v : Run α σ Unit) (assign (x.rename f) v) :=
  rescope x.ann fun s => s.update_rename hf x.name v

theorem emit (sink : Sink σ) (a : α) (line : String) :
    Renames f (emit sink a line) (emit sink a line) := by
  intro m
  have hout : (m.rename f).out = m.out := rfl
  unfold Exec.emit
  rw [hout]
  obtain ⟨out, refusal⟩ := sink.offer m.out line
  cases refusal <;> rfl

theorem inFrame {step step' : Run α σ Unit} (h : Renames f step step') :
    Renames f (inFrame step) (inFrame step') := by
  intro m
  have hstep := h { m with scope := m.scope.enter }
  have henter : ({ m.rename f with scope := (m.rename f).scope.enter } : Machine σ) =
      Machine.rename f { m with scope := m.scope.enter } := rfl
  unfold Exec.inFrame
  rw [henter, hstep]
  cases step { m with scope := m.scope.enter } with
  | ok c m' =>
    simp only [renamed, Machine.rename, Scope.leave_rename]
  | error e m' =>
    simp only [renamed, Machine.rename, Scope.leave_rename]

theorem loop (hf : Function.Injective f) (x : Ident α) {body body' : Run α σ Unit}
    (h : Renames f body body') : ∀ (bound : Bool) (d : Dict),
    Renames f (loop x body bound d) (loop (x.rename f) body' bound d)
  | _, .nil => pure ()
  | bound, .cons k v rest => by
    unfold Exec.loop
    cases bound with
    | true => exact (assign hf x _).bind fun _ => h.bind fun _ => loop hf x h true rest
    | false => exact (declare hf x _).bind fun _ => h.bind fun _ => loop hf x h true rest

end Renames

mutual

/-- **A renamed statement renames.** -/
theorem stmt_renames (hf : Function.Injective f) (sink : Sink σ) : ∀ s : Stmt α,
    Renames f (stmt sink s) (stmt sink (s.rename f))
  | .var a x e => by
    rw [Stmt.rename, stmt, stmt]
    exact (Renames.value hf e).bind fun v => .declare hf x v
  | .assign a x e => by
    rw [Stmt.rename, stmt, stmt]
    exact (Renames.value hf e).bind fun v => .assign hf x v
  | .print a e => by
    rw [Stmt.rename, stmt, stmt]
    exact (Renames.value hf e).bind fun v => .emit sink a _
  | .ifThen a c b => by
    rw [Stmt.rename, stmt, stmt, Expr.ann_rename]
    refine (Renames.value hf c).bind fun v => ?_
    cases hv : Eval.needBool c.ann v with
    | error e => exact .throw hv (Eval.needBool_mapError_rename f _ _)
    | ok cond =>
      cases cond with
      | true => exact block_renames hf sink b
      | false => exact .pure ()
  | .ifElse a c b b' => by
    rw [Stmt.rename, stmt, stmt, Expr.ann_rename]
    refine (Renames.value hf c).bind fun v => ?_
    cases hv : Eval.needBool c.ann v with
    | error e => exact .throw hv (Eval.needBool_mapError_rename f _ _)
    | ok cond =>
      cases cond with
      | true => exact block_renames hf sink b
      | false => exact block_renames hf sink b'
  | .forEach a x d b => by
    rw [Stmt.rename, stmt, stmt, Expr.ann_rename]
    refine (Renames.value hf d).bind fun v => ?_
    cases hv : Eval.needDict d.ann v with
    | error e => exact .throw hv (Eval.needDict_mapError_rename f _ _)
    | ok dict => exact .inFrame (.loop hf x (block_renames hf sink b) false dict)
  | .block b => by
    rw [Stmt.rename, stmt, stmt]
    exact block_renames hf sink b

theorem block_renames (hf : Function.Injective f) (sink : Sink σ) : ∀ b : Block α,
    Renames f (block sink b) (block sink (b.rename f))
  | .mk a s close => by
    rw [Block.rename, block, block]
    exact (seq_renames hf sink s).inFrame

theorem seq_renames (hf : Function.Injective f) (sink : Sink σ) : ∀ s : Seq α,
    Renames f (seq sink s) (seq sink (s.rename f))
  | .empty a => .pure ()
  | .cons a s rest => by
    rw [Seq.rename, seq, seq]
    exact (stmt_renames hf sink s).bind fun _ => seq_renames hf sink rest

end

end Exec

/-- **A renamed program prints what the program prints**, and it ends in the same way. -/
theorem Program.run_rename (hf : Function.Injective f) (sink : Sink σ) (out : σ)
    (p : Program α) : (p.rename f).run sink out =
      ((p.run sink out).1.mapError (Fault.rename f), (p.run sink out).2) := by
  have hbody : Exec.seq sink (p.body.rename f) ⟨.empty, out⟩ =
      Exec.renamed f (Exec.seq sink p.body ⟨.empty, out⟩) :=
    Exec.seq_renames hf sink p.body ⟨.empty, out⟩
  simp only [run, rename, hbody]
  cases Exec.seq sink p.body ⟨.empty, out⟩ <;> rfl

end PairDict
