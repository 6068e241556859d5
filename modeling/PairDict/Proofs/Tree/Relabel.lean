import PairDict.Run.Exec
import PairDict.Typing.Check

/-! # Annotations do not matter

Checking and running a tree does not depend on its annotations: if every annotation is
replaced by a function `f`, then the outcome is the same, except that an error repeats the
new annotation of the node to blame.

For evaluation and execution this is an equation between outcomes (`Expr.eval_map`,
`Program.run_map`).  For the checker it is a relation between what is known of an expression
(`Check.Typed.Relabels`), since only its type and its annotation are ever used
(`Program.check_map`).
-/
namespace PairDict

variable {α β σ : Type}

/-! ## Errors -/

namespace Except

variable {ε ε' γ δ : Type}

theorem mapError_ok (f : ε → ε') (c : γ) : (.ok c : Except ε γ).mapError f = .ok c := rfl

theorem mapError_error (f : ε → ε') (e : ε) :
    (.error e : Except ε γ).mapError f = .error (f e) := rfl

theorem mapError_bind (f : ε → ε') (x : Except ε γ) (g : γ → Except ε δ) :
    (x >>= g).mapError f = x.mapError f >>= fun c => (g c).mapError f := by
  cases x <;> rfl

end Except

/-- Replace the annotation of a fault. -/
def Fault.map (f : α → β) (e : Fault α) : Fault β := ⟨f e.ann, e.cause⟩

/-- Replace the annotation of a type error. -/
def TypeError.map (f : α → β) (e : TypeError α) : TypeError β := ⟨f e.ann, e.fault⟩

theorem Expr.ann_map (f : α → β) (e : Expr α) : (e.map f).ann = f e.ann := by
  cases e <;> rfl

/-! ## Evaluation -/

namespace Eval

variable (f : α → β) (a : α)

theorem needInt_map (v : Value) : needInt (f a) v = (needInt a v).mapError (Fault.map f) := by
  cases v <;> rfl

theorem needBool_map (v : Value) : needBool (f a) v = (needBool a v).mapError (Fault.map f) := by
  cases v <;> rfl

theorem needPair_map (v : Value) : needPair (f a) v = (needPair a v).mapError (Fault.map f) := by
  cases v <;> rfl

theorem needDict_map (v : Value) : needDict (f a) v = (needDict a v).mapError (Fault.map f) := by
  cases v <;> rfl

theorem fetch_map (d : Dict) (key : Int64) :
    fetch (f a) d key = (fetch a d key).mapError (Fault.map f) := by
  unfold fetch
  cases d.get? key <;> rfl

theorem remove_map (d : Dict) (key : Int64) :
    remove (f a) d key = (remove a d key).mapError (Fault.map f) := by
  rw [remove, fetch_map, remove, Except.mapError_bind]
  rfl

end Eval

open Eval in
/-- **Evaluation does not depend on annotations.** -/
theorem Expr.eval_map (f : α → β) (Γ : Scope Value) (e : Expr α) :
    (e.map f).eval Γ = (e.eval Γ).mapError (Fault.map f) := by
  induction e with
  | name a x =>
    unfold eval
    simp only [map]
    cases Γ.lookup x <;> rfl
  | int a n | bool a b => rfl
  | pair a x y ihx ihy =>
    simp only [map, eval, ihx, ihy, Except.mapError_bind]
    rfl
  | unary a op x ih =>
    simp only [map, eval, ih, ann_map, needInt_map, needBool_map, needPair_map]
    split
    · simp only [Except.mapError_bind]
      rfl
    · simp only [Except.mapError_bind]
      rfl
    · simp only [Except.mapError_bind]
      rfl
    · simp only [Except.mapError_bind]
      rfl
    · rfl
  | binary a op x y ihx ihy =>
    simp only [map, eval, ihx, ihy, ann_map, needInt_map, needBool_map]
    split
    · simp only [Except.mapError_bind]
      rfl
    · simp only [Except.mapError_bind]
      rfl
    · simp only [Except.mapError_bind, apply_ite (Except.mapError (Fault.map f))]
      rfl
    · simp only [Except.mapError_bind]
      rfl
    · rfl
  | entry a k v ihk ihv =>
    simp only [map, eval, ihk, ihv, ann_map, needInt_map, Except.mapError_bind]
    rfl
  | select a op d k ihd ihk =>
    simp only [map, eval, ihd, ihk, ann_map, needInt_map, needDict_map, Except.mapError_bind]
    cases op with
    | get => simp only [fetch_map]
    | delete => simp only [remove_map]
    | other => rfl
  | store a op d k v ihd ihk ihv =>
    cases op <;> simp only [map, eval, ihd, ihk, ihv, ann_map, needInt_map, needDict_map, fetch_map,
      remove_map, Except.mapError_bind] <;> rfl

/-! ## Execution -/

/-- The same step, where a fault repeats the new annotation. -/
def Run.mapFault {γ : Type} (f : α → β) (step : Run α σ γ) : Run β σ γ := fun m =>
  match step m with
  | .ok c m' => .ok c m'
  | .error e m' => .error (e.map f) m'

namespace Exec

variable (f : α → β) {γ δ : Type}

theorem mapFault_bind (step : Run α σ γ) (next : γ → Run α σ δ) :
    (step >>= next).mapFault f = step.mapFault f >>= fun c => (next c).mapFault f := by
  funext m
  simp only [Run.mapFault, bind, EStateM.bind]
  cases step m <;> rfl

theorem value_map (e : Expr α) :
    (value (e.map f) : Run β σ Value) = (value e).mapFault f := by
  funext m
  simp only [value, Run.mapFault, Expr.eval_map]
  cases e.eval m.scope <;> rfl

theorem rescope_map (a : α) (change : Scope Value → Except ScopeError (Scope Value)) :
    (rescope (f a) change : Run β σ Unit) = (rescope a change).mapFault f := by
  funext m
  simp only [rescope, Run.mapFault]
  cases change m.scope <;> rfl

theorem emit_map (sink : Sink σ) (a : α) (line : String) :
    emit sink (f a) line = (emit sink a line).mapFault f := by
  funext m
  simp only [emit, Run.mapFault]
  obtain ⟨out, refusal⟩ := sink.offer m.out line
  cases refusal <;> rfl

theorem inFrame_map (step : Run α σ Unit) :
    inFrame (step.mapFault f) = (inFrame step).mapFault f := by
  funext m
  simp only [inFrame, Run.mapFault]
  cases step { m with scope := m.scope.enter } <;> rfl

theorem declare_map (x : Ident α) (v : Value) :
    (declare (x.map f) v : Run β σ Unit) = (declare x v).mapFault f := rescope_map f x.ann _

theorem assign_map (x : Ident α) (v : Value) :
    (assign (x.map f) v : Run β σ Unit) = (assign x v).mapFault f := rescope_map f x.ann _

theorem loop_map (x : Ident α) (body : Run α σ Unit) : ∀ (bound : Bool) (d : Dict),
    loop (x.map f) (body.mapFault f) bound d = (loop x body bound d).mapFault f
  | _, .nil => rfl
  | bound, .cons k v rest => by
    have ih := loop_map x body true rest
    unfold loop
    cases bound with
    | true =>
      simp only [if_true, assign_map, ih, mapFault_bind]
    | false =>
      simp only [Bool.false_eq_true, if_false, declare_map, ih, mapFault_bind]

mutual

theorem stmt_map (sink : Sink σ) : ∀ c : Stmt α, stmt sink (c.map f) = (stmt sink c).mapFault f
  | .var a x e | .assign a x e => by
    rw [Stmt.map, stmt, value_map, stmt, mapFault_bind]
    exact bind_congr fun v => rescope_map f x.ann _
  | .print a e => by
    rw [Stmt.map, stmt, value_map, stmt, mapFault_bind]
    exact bind_congr fun v => emit_map f sink a _
  | .ifThen a c t => by
    rw [Stmt.map, stmt, value_map, stmt, mapFault_bind]
    refine bind_congr fun v => ?_
    rw [Expr.ann_map, Eval.needBool_map]
    cases Eval.needBool c.ann v with
    | error e => rfl
    | ok b =>
      cases b with
      | true => exact block_map sink t
      | false => rfl
  | .ifElse a c t e => by
    rw [Stmt.map, stmt, value_map, stmt, mapFault_bind]
    refine bind_congr fun v => ?_
    rw [Expr.ann_map, Eval.needBool_map]
    cases Eval.needBool c.ann v with
    | error e => rfl
    | ok b =>
      cases b with
      | true => exact block_map sink t
      | false => exact block_map sink e
  | .forEach a x d b => by
    rw [Stmt.map, stmt, value_map, stmt, mapFault_bind]
    refine bind_congr fun v => ?_
    rw [Expr.ann_map, Eval.needDict_map]
    cases Eval.needDict d.ann v with
    | error e => rfl
    | ok dict =>
      show inFrame (loop (x.map f) (block sink (b.map f)) false dict) = _
      rw [block_map sink b, loop_map, inFrame_map]
  | .block b => by
    rw [Stmt.map, stmt, stmt]
    exact block_map sink b

theorem block_map (sink : Sink σ) : ∀ b : Block α, block sink (b.map f) = (block sink b).mapFault f
  | .mk a s close => by
    rw [Block.map, block, block, seq_map sink s, inFrame_map]

theorem seq_map (sink : Sink σ) : ∀ s : Seq α, seq sink (s.map f) = (seq sink s).mapFault f
  | .empty a => rfl
  | .cons a c rest => by
    rw [Seq.map, seq, seq, stmt_map sink c, seq_map sink rest, mapFault_bind]

end

end Exec

/-- **Execution does not depend on annotations.** -/
theorem Program.run_map (f : α → β) (sink : Sink σ) (out : σ) (p : Program α) :
    (p.map f).run sink out = ((p.run sink out).1.mapError (Fault.map f), (p.run sink out).2) := by
  simp only [run, map, Exec.seq_map, Run.mapFault]
  cases Exec.seq sink p.body ⟨.empty, out⟩ <;> rfl

/-! ## Types of expressions -/

namespace Check

/-- What is known of an expression, once with the annotations replaced and once without. -/
structure Typed.Relabels (f : α → β) (r : Typed α) (r' : Typed β) : Prop where
  /-- The type is the same, or the error, with its annotation replaced. -/
  type : r'.type = r.type.mapError (TypeError.map f)
  /-- The annotation is replaced. -/
  ann : r'.tree.ann.ann = f r.tree.ann.ann

variable {f : α → β} {a : α} {r x y z : Typed α} {r' x' y' z' : Typed β}

theorem lookup_map (f : α → β) (Γ : Scope Ty) (a : α) (s : String) :
    lookup Γ (f a) s = (lookup Γ a s).mapError (TypeError.map f) := by
  unfold lookup
  cases Γ.lookup s <;> rfl

theorem needPair_map (f : α → β) (a : α) (t : Ty) :
    needPair (f a) t = (needPair a t).mapError (TypeError.map f) := by
  cases t <;> rfl

theorem needDict_map (f : α → β) (a : α) (t : Ty) :
    needDict (f a) t = (needDict a t).mapError (TypeError.map f) := by
  cases t <;> rfl

namespace Typed.Relabels

theorem expect (h : Relabels f r r') (want : Ty) : Relabels f (r.expect want) (r'.expect want) where
  type := by
    simp only [Typed.expect, h.type, h.ann]
    cases r.type with
    | error e => rfl
    | ok t =>
      show (if _ then _ else _) = Except.mapError _ (if _ then _ else _)
      split <;> rfl
  ann := h.ann

theorem after (h : Relabels f x x') (hr : Relabels f r r') :
    Relabels f (x.after r) (x'.after r') := by
  unfold Typed.after
  rw [hr.type]
  cases r.type with
  | ok t => exact h
  | error e =>
    refine ⟨rfl, ?_⟩
    show (x'.tree.map Note.clear).ann.ann = f (x.tree.map Note.clear).ann.ann
    rw [Expr.ann_map, Expr.ann_map]
    exact h.ann

theorem unary (h : Relabels f x x') (op : Token) :
    Relabels f (Check.unary a op x) (Check.unary (f a) op x') := by
  unfold Check.unary
  split
  · exact ⟨(h.expect .int).type, rfl⟩
  · exact ⟨(h.expect .bool).type, rfl⟩
  · refine ⟨?_, rfl⟩
    simp only [node, h.type, h.ann, needPair_map, Except.mapError_bind]
    rfl
  · refine ⟨?_, rfl⟩
    simp only [node, h.type, h.ann, needPair_map, Except.mapError_bind]
    rfl
  · exact ⟨rfl, rfl⟩

theorem uniform (h : Relabels f x x') (h' : Relabels f y y') (op : Token) (t : Ty) :
    Relabels f (Check.uniform a op t x y) (Check.uniform (f a) op t x' y') :=
  ⟨((h'.expect t).after (h.expect t)).type, rfl⟩

theorem binary (h : Relabels f x x') (h' : Relabels f y y') (op : Token) :
    Relabels f (Check.binary a op x y) (Check.binary (f a) op x' y') := by
  unfold Check.binary
  split
  · exact h.uniform h' _ .int
  · exact h.uniform h' _ .int
  · exact h.uniform h' _ .bool
  · have hafter := h'.after h
    refine ⟨?_, rfl⟩
    simp only [node, h.type, (hafter.expect _).type, Except.mapError_bind]
    rfl
  · exact ⟨rfl, rfl⟩

/-- A new dictionary, whatever its node is. -/
theorem entry_type (h : Relabels f x x') (h' : Relabels f y y')
    (build : Note α → Expr (Note α) → Expr (Note α) → Expr (Note α))
    (build' : Note β → Expr (Note β) → Expr (Note β) → Expr (Note β)) :
    (Check.entry (f a) x' y' build').type =
      (Check.entry a x y build).type.mapError (TypeError.map f) := by
  simp only [Check.entry, node, (h'.after (h.expect Ty.key)).type, Except.mapError_bind]
  rfl

/-- The base of an operation on a dictionary, and its key. -/
theorem based (h : Relabels f x x') (h' : Relabels f y y') :
    (Check.based x' y').1 = (Check.based x y).1.mapError (TypeError.map f) := by
  have hafter := h.after (h'.expect Ty.key)
  simp only [Check.based, hafter.type, hafter.ann, needDict_map, Except.mapError_bind]

theorem select (h : Relabels f x x') (h' : Relabels f y y') (op : SelectOp) :
    Relabels f (Check.select a op x y) (Check.select (f a) op x' y') := by
  refine ⟨?_, rfl⟩
  simp only [Check.select, node, h.based h']
  cases op with
  | get => rfl
  | delete | other n =>
    simp only [Except.mapError_bind]
    rfl

theorem store (h : Relabels f x x') (h' : Relabels f y y') (h'' : Relabels f z z') (op : DictOp) :
    Relabels f (Check.store a op x y z) (Check.store (f a) op x' y' z') := by
  have hbased := h.based h'
  cases op with
  | create => exact ⟨h'.entry_type h'' _ _, rfl⟩
  | get => exact ⟨hbased, rfl⟩
  | delete | other n =>
    refine ⟨?_, rfl⟩
    simp only [Check.store, node, hbased, Except.mapError_bind]
    rfl
  | update =>
    have helem : Relabels f ⟨(Check.based x y).1, (Check.based x y).2.1.tree⟩
        ⟨(Check.based x y).1.mapError (TypeError.map f), (Check.based x' y').2.1.tree⟩ :=
      ⟨rfl, (h.after (h'.expect Ty.key)).ann⟩
    refine ⟨?_, rfl⟩
    simp only [Check.store, node, hbased, ((h''.after helem).expect _).type, Except.mapError_bind]
    rfl

end Typed.Relabels

/-- **The type of an expression does not depend on annotations.** -/
theorem expr_relabels (f : α → β) (Γ : Scope Ty) (e : Expr α) :
    Typed.Relabels f (expr Γ e) (expr Γ (e.map f)) := by
  induction e with
  | name a x => exact ⟨lookup_map f Γ a x, rfl⟩
  | int a n | bool a b => exact ⟨rfl, rfl⟩
  | pair a x y ihx ihy =>
    refine ⟨?_, rfl⟩
    simp only [Expr.map, expr, node, ihx.type, (ihy.after ihx).type, Except.mapError_bind]
    rfl
  | unary a op x ih => exact ih.unary op
  | binary a op x y ihx ihy => exact ihx.binary ihy op
  | entry a k v ihk ihv => exact ⟨ihk.entry_type ihv _ _, rfl⟩
  | select a op d k ihd ihk => exact ihd.select ihk op
  | store a op d k v ihd ihk ihv => exact ihd.store ihk ihv op

/-! ## Types of statements -/

/-- What is known of a statement, once with the annotations replaced and once without. -/
structure Checked.Relabels {τ τ' : Type} (f : α → β) (r : Checked α τ) (r' : Checked β τ') :
    Prop where
  /-- The outcome is the same, or the error, with its annotation replaced. -/
  result : r'.result = r.result.mapError (TypeError.map f)
  /-- The scope is the same. -/
  scope : r'.scope = r.scope

theorem declare_relabels (f : α → β) (Γ : Scope Ty) (x : Ident α) (t : Ty) :
    Checked.Relabels f (declare Γ x t) (declare Γ (x.map f) t) := by
  have hname : (x.map f).name = x.name := rfl
  unfold declare
  rw [hname]
  cases Γ.declare x.name t with
  | ok Γ' => exact ⟨rfl, rfl⟩
  | error e => exact ⟨rfl, rfl⟩

mutual

theorem stmt_relabels (f : α → β) (Γ : Scope Ty) : ∀ c : Stmt α,
    Checked.Relabels f (stmt Γ c) (stmt Γ (c.map f))
  | .var a x e => by
    have he := expr_relabels f Γ e
    simp only [Stmt.map, stmt, he.type]
    cases (expr Γ e).type with
    | error g => exact ⟨rfl, rfl⟩
    | ok t => exact ⟨(declare_relabels f Γ x t).result, (declare_relabels f Γ x t).scope⟩
  | .assign a x e => by
    have hx : lookup Γ (x.map f).ann (x.map f).name =
        (lookup Γ x.ann x.name).mapError (TypeError.map f) := lookup_map f Γ x.ann x.name
    simp only [Stmt.map, stmt, hx]
    cases lookup Γ x.ann x.name with
    | error g => exact ⟨rfl, rfl⟩
    | ok t =>
      have he := (expr_relabels f Γ e).expect t
      refine ⟨?_, rfl⟩
      simp only [Except.mapError_ok, he.type]
      cases ((expr Γ e).expect t).type <;> rfl
  | .print a e => by
    have he := expr_relabels f Γ e
    refine ⟨?_, rfl⟩
    simp only [Stmt.map, stmt, he.type]
    cases (expr Γ e).type <;> rfl
  | .ifThen a c t => by
    have hc := (expr_relabels f Γ c).expect .bool
    have ht := block_relabels f Γ t
    simp only [Stmt.map, stmt, hc.type]
    cases ((expr Γ c).expect .bool).type with
    | error g => exact ⟨rfl, rfl⟩
    | ok _ => exact ⟨ht.result, ht.scope⟩
  | .ifElse a c t e => by
    have hc := (expr_relabels f Γ c).expect .bool
    have ht := block_relabels f Γ t
    have he := block_relabels f (block Γ t).scope e
    simp only [Stmt.map, stmt, hc.type]
    cases ((expr Γ c).expect .bool).type with
    | error g => exact ⟨rfl, rfl⟩
    | ok _ =>
      simp only [Except.mapError_ok, ht.result]
      cases (block Γ t).result with
      | error g => exact ⟨rfl, ht.scope⟩
      | ok _ =>
        simp only [ht.scope]
        exact ⟨he.result, he.scope⟩
  | .forEach a x d b => by
    have hd := expr_relabels f Γ d
    have hdict : (do needDict (expr Γ (d.map f)).tree.ann.ann (← (expr Γ (d.map f)).type)) =
        (do needDict (expr Γ d).tree.ann.ann (← (expr Γ d).type)).mapError (TypeError.map f) := by
      simp only [hd.type, hd.ann, needDict_map, Except.mapError_bind]
    simp only [Stmt.map, stmt, hdict]
    cases (do needDict (expr Γ d).tree.ann.ann (← (expr Γ d).type)) with
    | error g => exact ⟨rfl, rfl⟩
    | ok t =>
      have hx := declare_relabels f Γ.enter x (Ty.entry t)
      have hb := block_relabels f (declare Γ.enter x (Ty.entry t)).scope b
      simp only [Except.mapError_ok, hx.result]
      cases (declare Γ.enter x (Ty.entry t)).result with
      | error g => exact ⟨rfl, congrArg Scope.leave hx.scope⟩
      | ok _ =>
        simp only [hx.scope]
        exact ⟨hb.result, congrArg Scope.leave hb.scope⟩
  | .block b => by
    have hb := block_relabels f Γ b
    exact ⟨hb.result, hb.scope⟩

theorem block_relabels (f : α → β) (Γ : Scope Ty) : ∀ b : Block α,
    Checked.Relabels f (block Γ b) (block Γ (b.map f))
  | .mk a s close => by
    have hs := seq_relabels f Γ.enter s
    exact ⟨hs.result, congrArg Scope.leave hs.scope⟩

theorem seq_relabels (f : α → β) (Γ : Scope Ty) : ∀ s : Seq α,
    Checked.Relabels f (seq Γ s) (seq Γ (s.map f))
  | .empty a => ⟨rfl, rfl⟩
  | .cons a c rest => by
    have hc := stmt_relabels f Γ c
    have hrest := seq_relabels f (stmt Γ c).scope rest
    simp only [Seq.map, seq, hc.result]
    cases (stmt Γ c).result with
    | error g => exact ⟨rfl, hc.scope⟩
    | ok _ =>
      simp only [Except.mapError_ok, hc.scope]
      exact ⟨hrest.result, hrest.scope⟩

end

end Check

/-- **The outcome of checking does not depend on annotations.** -/
theorem Program.check_map (f : α → β) (p : Program α) :
    (p.map f).check.1 = p.check.1.mapError (TypeError.map f) :=
  (Check.seq_relabels f .empty p.body).result

end PairDict
