import PairDict.Proofs.Run.Renamed
import PairDict.Typing.Record

/-! # Checking a renamed tree

Types hold no names.  So checking a tree in which every name is renamed by an injective
function gives what checking the tree gives: the same types, recorded at the same nodes, and
the same error, with the name in it renamed.  This is an equation for each part of the
checker, between what it gives on renamed operands and the renamed result
(`Check.Typed.rename`, `Check.Checked.rename`).

With what is known of runs it follows that names matter only up to a consistent renaming
(`Program.check_run_rename`).
-/
namespace PairDict

variable {α : Type} {f : String → String}

/-! ## Errors -/

/-- The fault with the name in it renamed, if it has one. -/
def TypeFault.rename (f : String → String) : TypeFault → TypeFault
  | .scope e => .scope (e.rename f)
  | fault => fault

/-- The error with the name in it renamed, if it has one. -/
def TypeError.rename (f : String → String) (e : TypeError α) : TypeError α :=
  ⟨e.ann, e.fault.rename f⟩

theorem Except.toOption_mapError {ε ε' β : Type} (g : ε → ε') (x : Except ε β) :
    (x.mapError g).toOption = x.toOption := by
  cases x <;> rfl

namespace Check

/-! ## Expressions -/

/-- What is known of an expression, with every name renamed. -/
def Typed.rename (f : String → String) (r : Typed α) : Typed α :=
  ⟨r.type.mapError (TypeError.rename f), r.tree.rename f⟩

@[simp] theorem Typed.type_rename (f : String → String) (r : Typed α) :
    (r.rename f).type = r.type.mapError (TypeError.rename f) := rfl

@[simp] theorem Typed.tree_rename (f : String → String) (r : Typed α) :
    (r.rename f).tree = r.tree.rename f := rfl

theorem lookup_rename (hf : Function.Injective f) (Γ : Scope Ty) (a : α) (x : String) :
    lookup (Γ.rename f) a (f x) = (lookup Γ a x).mapError (TypeError.rename f) := by
  unfold lookup
  rw [Scope.lookup_rename hf]
  cases Γ.lookup x <;> rfl

@[simp] theorem needPair_mapError_rename (f : String → String) (a : α) (t : Ty) :
    (needPair a t).mapError (TypeError.rename f) = needPair a t := by
  cases t <;> rfl

@[simp] theorem needDict_mapError_rename (f : String → String) (a : α) (t : Ty) :
    (needDict a t).mapError (TypeError.rename f) = needDict a t := by
  cases t <;> rfl

variable {a : α} {x y z : Typed α}

theorem Typed.expect_rename (r : Typed α) (want : Ty) :
    (r.rename f).expect want = (r.expect want).rename f := by
  unfold expect
  simp only [rename, Expr.ann_rename, Except.mapError_bind]
  congr 2
  funext t
  split <;> rfl

theorem Typed.after_rename (e r : Typed α) :
    (e.rename f).after (r.rename f) = (e.after r).rename f := by
  unfold after
  simp only [type_rename]
  cases r.type with
  | ok t => rfl
  | error g => simp only [rename, Except.mapError_error, Expr.map_rename]

/-- A node of renamed operands. -/
theorem node_rename (a : α) (type : Except (TypeError α) Ty)
    {build build' : Note α → Expr (Note α)} (h : ∀ n, build' n = (build n).rename f) :
    node a (type.mapError (TypeError.rename f)) build' = (node a type build).rename f := by
  simp only [node, Typed.rename, Except.toOption_mapError, h]

theorem unary_rename (op : Token) : unary a op (x.rename f) = (unary a op x).rename f := by
  unfold unary
  split
  · rw [Typed.expect_rename]
    exact node_rename a _ fun _ => rfl
  · rw [Typed.expect_rename]
    exact node_rename a _ fun _ => rfl
  · refine Eq.trans ?_ (node_rename a _ fun _ => rfl)
    simp only [Typed.type_rename, Typed.tree_rename, Expr.ann_rename, Except.mapError_bind,
      needPair_mapError_rename]
    rfl
  · refine Eq.trans ?_ (node_rename a _ fun _ => rfl)
    simp only [Typed.type_rename, Typed.tree_rename, Expr.ann_rename, Except.mapError_bind,
      needPair_mapError_rename]
    rfl
  · simp only [Typed.tree_rename, Expr.map_rename]
    rfl

theorem uniform_rename (op : Token) (t : Ty) :
    uniform a op t (x.rename f) (y.rename f) = (uniform a op t x y).rename f := by
  simp only [uniform, Typed.expect_rename, Typed.after_rename]
  exact node_rename a _ fun _ => rfl

theorem binary_rename (op : Token) :
    binary a op (x.rename f) (y.rename f) = (binary a op x y).rename f := by
  unfold binary
  split
  · exact uniform_rename _ _
  · exact uniform_rename _ _
  · exact uniform_rename _ _
  · rw [Typed.after_rename]
    refine Eq.trans ?_ (node_rename a _ fun _ => rfl)
    simp only [Typed.expect_rename, Typed.type_rename, Typed.tree_rename, Except.mapError_bind]
    rfl
  · simp only [Typed.tree_rename, Expr.map_rename]
    rfl

theorem entry_rename {build build' : Note α → Expr (Note α) → Expr (Note α) → Expr (Note α)}
    (h : ∀ n k v, build' n (k.rename f) (v.rename f) = (build n k v).rename f) :
    entry a (x.rename f) (y.rename f) build' = (entry a x y build).rename f := by
  simp only [entry, Typed.expect_rename, Typed.after_rename]
  refine Eq.trans ?_ (node_rename a _ fun n => h n _ _)
  simp only [Typed.type_rename, Typed.tree_rename, Except.mapError_bind]
  rfl

theorem based_rename :
    based (x.rename f) (y.rename f) = ((based x y).1.mapError (TypeError.rename f),
      (based x y).2.1.rename f, (based x y).2.2.rename f) := by
  simp only [based, Typed.expect_rename, Typed.after_rename, Typed.type_rename, Typed.tree_rename,
    Expr.ann_rename, Except.mapError_bind, needDict_mapError_rename]

theorem select_rename (op : SelectOp) :
    select a op (x.rename f) (y.rename f) = (select a op x y).rename f := by
  simp only [select, based_rename, Typed.tree_rename]
  cases op with
  | get => exact node_rename a _ fun _ => rfl
  | delete | other n =>
    refine Eq.trans ?_ (node_rename a _ fun _ => rfl)
    simp only [Except.mapError_bind]
    rfl

theorem store_rename (op : DictOp) :
    store a op (x.rename f) (y.rename f) (z.rename f) = (store a op x y z).rename f := by
  cases op with
  | create =>
    simp only [store, Typed.tree_rename, Expr.map_rename]
    exact entry_rename fun _ _ _ => rfl
  | get =>
    simp only [store, based_rename, Typed.tree_rename, Expr.map_rename]
    exact node_rename a _ fun _ => rfl
  | delete | other n =>
    simp only [store, based_rename, Typed.tree_rename, Expr.map_rename]
    refine Eq.trans ?_ (node_rename a _ fun _ => rfl)
    simp only [Except.mapError_bind]
    rfl
  | update =>
    have helem : (⟨(based x y).1.mapError (TypeError.rename f), (based x y).2.1.tree.rename f⟩ :
        Typed α) = Typed.rename f ⟨(based x y).1, (based x y).2.1.tree⟩ := rfl
    simp only [store, based_rename, Typed.tree_rename, helem, Typed.after_rename,
      Typed.expect_rename]
    refine Eq.trans ?_ (node_rename a _ fun _ => rfl)
    simp only [Typed.type_rename, Except.mapError_bind]
    rfl

/-- **The type of an expression depends on names only through the scope.** -/
theorem expr_rename (hf : Function.Injective f) (Γ : Scope Ty) (e : Expr α) :
    expr (Γ.rename f) (e.rename f) = (expr Γ e).rename f := by
  induction e with
  | name a x =>
    simp only [Expr.rename, expr, lookup_rename hf]
    exact node_rename a _ fun _ => rfl
  | int a n | bool a b => rfl
  | pair a x y ihx ihy =>
    simp only [Expr.rename, expr, ihx, ihy, Typed.after_rename]
    refine Eq.trans ?_ (node_rename a _ fun _ => rfl)
    simp only [Typed.type_rename, Typed.tree_rename, Except.mapError_bind]
    rfl
  | unary a op x ih =>
    rw [Expr.rename, expr, expr, ih, unary_rename]
  | binary a op x y ihx ihy =>
    rw [Expr.rename, expr, expr, ihx, ihy, binary_rename]
  | entry a k v ihk ihv =>
    rw [Expr.rename, expr, expr, ihk, ihv]
    exact entry_rename fun _ _ _ => rfl
  | select a op d k ihd ihk =>
    rw [Expr.rename, expr, expr, ihd, ihk, select_rename]
  | store a op d k v ihd ihk ihv =>
    rw [Expr.rename, expr, expr, ihd, ihk, ihv, store_rename]

/-! ## Statements -/

/-- What is known of a statement, with every name renamed: `g` renames in the tree. -/
def Checked.rename {τ : Type} (f : String → String) (g : τ → τ) (r : Checked α τ) :
    Checked α τ :=
  ⟨r.result.mapError (TypeError.rename f), r.scope.rename f, g r.tree⟩

theorem declare_rename (hf : Function.Injective f) (Γ : Scope Ty) (x : Ident α) (t : Ty) :
    declare (Γ.rename f) (x.rename f) t = (declare Γ x t).rename f (Ident.rename f) := by
  have hx : (Γ.rename f).declare (x.rename f).name t = _ := Γ.declare_rename hf x.name t
  unfold declare
  rw [hx]
  cases Γ.declare x.name t <;> rfl

mutual

/-- **A renamed statement is checked as the statement is.** -/
theorem stmt_rename (hf : Function.Injective f) (Γ : Scope Ty) : ∀ s : Stmt α,
    stmt (Γ.rename f) (s.rename f) = (stmt Γ s).rename f (Stmt.rename f)
  | .var a x e => by
    simp only [Stmt.rename, stmt, expr_rename hf, Typed.type_rename, Typed.tree_rename]
    cases (expr Γ e).type with
    | error g => rfl
    | ok t =>
      simp only [Except.mapError_ok, declare_rename hf]
      rfl
  | .assign a x e => by
    have hx : lookup (Γ.rename f) (x.rename f).ann (x.rename f).name = _ :=
      lookup_rename hf Γ x.ann x.name
    simp only [Stmt.rename, stmt, hx, expr_rename hf, Typed.expect_rename]
    cases lookup Γ x.ann x.name with
    | error g =>
      simp only [Except.mapError_error, Expr.map_rename]
      rfl
    | ok t =>
      simp only [Except.mapError_ok, Typed.type_rename, Typed.tree_rename, Checked.rename]
      cases ((expr Γ e).expect t).type <;> rfl
  | .print a e => by
    simp only [Stmt.rename, stmt, expr_rename hf, Typed.type_rename, Typed.tree_rename,
      Checked.rename]
    cases (expr Γ e).type <;> rfl
  | .ifThen a c b => by
    simp only [Stmt.rename, stmt, expr_rename hf, Typed.expect_rename, Typed.type_rename,
      Typed.tree_rename, Block.map_rename, block_rename hf Γ b]
    cases ((expr Γ c).expect .bool).type <;> rfl
  | .ifElse a c b b' => by
    simp only [Stmt.rename, stmt, expr_rename hf, Typed.expect_rename, Typed.type_rename,
      Typed.tree_rename, Block.map_rename, block_rename hf Γ b]
    cases ((expr Γ c).expect .bool).type with
    | error g => rfl
    | ok t =>
      simp only [Except.mapError_ok, Checked.rename, block_rename hf (block Γ b).scope b']
      cases (block Γ b).result <;> rfl
  | .forEach a x d b => by
    have hdict : (do needDict (((expr Γ d).rename f).tree.ann.ann) (← ((expr Γ d).rename f).type)) =
        (do needDict (expr Γ d).tree.ann.ann (← (expr Γ d).type)).mapError (TypeError.rename f) := by
      simp only [Typed.type_rename, Typed.tree_rename, Expr.ann_rename, Except.mapError_bind,
        needDict_mapError_rename]
    simp only [Stmt.rename, stmt, expr_rename hf, hdict]
    cases (do needDict (expr Γ d).tree.ann.ann (← (expr Γ d).type)) with
    | error g =>
      simp only [Except.mapError_error, Typed.tree_rename, Block.map_rename]
      rfl
    | ok t =>
      simp only [Except.mapError_ok, Scope.enter_rename, declare_rename hf, Checked.rename,
        Typed.tree_rename, Scope.leave_rename, Block.map_rename,
        block_rename hf (declare Γ.enter x (Ty.entry t)).scope b]
      cases (declare Γ.enter x (Ty.entry t)).result <;> rfl
  | .block b => by
    simp only [Stmt.rename, stmt, block_rename hf Γ b]
    rfl

theorem block_rename (hf : Function.Injective f) (Γ : Scope Ty) : ∀ b : Block α,
    block (Γ.rename f) (b.rename f) = (block Γ b).rename f (Block.rename f)
  | .mk a s close => by
    simp only [Block.rename, block, Scope.enter_rename, seq_rename hf Γ.enter s, Checked.rename,
      Scope.leave_rename]

theorem seq_rename (hf : Function.Injective f) (Γ : Scope Ty) : ∀ s : Seq α,
    seq (Γ.rename f) (s.rename f) = (seq Γ s).rename f (Seq.rename f)
  | .empty a => rfl
  | .cons a s rest => by
    simp only [Seq.rename, seq, stmt_rename hf Γ s, Seq.map_rename, Checked.rename,
      seq_rename hf (stmt Γ s).scope rest]
    cases (stmt Γ s).result <;> rfl

end

end Check

/-! ## What is recorded -/

theorem Expr.parts_rename (f : String → String) (e : Expr α) :
    (e.rename f).parts = e.parts.map (Expr.rename f) := by
  induction e with
  | name | int | bool => rfl
  | unary a op x ih => simp only [rename, parts, ih, List.map_cons]
  | pair a x y ihx ihy | binary a op x y ihx ihy | entry a x y ihx ihy | select a op x y ihx ihy =>
    simp only [rename, parts, ihx, ihy, List.map_cons, List.map_append]
  | store a op d k v ihd ihk ihv =>
    simp only [rename, parts, ihd, ihk, ihv, List.map_cons, List.map_append]

mutual

theorem Stmt.exprs_rename (f : String → String) : ∀ s : Stmt α,
    (s.rename f).exprs = s.exprs.map (Expr.rename f)
  | .var a x e | .assign a x e | .print a e => Expr.parts_rename f e
  | .ifThen a c b => by
    simp only [Stmt.rename, Stmt.exprs, Expr.parts_rename, b.exprs_rename f, List.map_append]
  | .ifElse a c b b' => by
    simp only [Stmt.rename, Stmt.exprs, Expr.parts_rename, b.exprs_rename f, b'.exprs_rename f,
      List.map_append]
  | .forEach a x d b => by
    simp only [Stmt.rename, Stmt.exprs, Expr.parts_rename, b.exprs_rename f, List.map_append]
  | .block b => b.exprs_rename f

theorem Block.exprs_rename (f : String → String) : ∀ b : Block α,
    (b.rename f).exprs = b.exprs.map (Expr.rename f)
  | .mk _ s _ => s.exprs_rename f

theorem Seq.exprs_rename (f : String → String) : ∀ s : Seq α,
    (s.rename f).exprs = s.exprs.map (Expr.rename f)
  | .empty a => rfl
  | .cons a s rest => by
    simp only [Seq.rename, Seq.exprs, s.exprs_rename f, rest.exprs_rename f, List.map_append]

end

namespace Program

/-- The types that are recorded in a renamed tree are those that were recorded. -/
theorem recordedTypes_rename (f : String → String) (p : Program (Note α)) :
    (p.rename f).recordedTypes = p.recordedTypes := by
  have hkind : ∀ e : Expr (Note α), (Node.expr (e.rename f)).kind = (Node.expr e).kind := by
    intro e
    cases e <;> rfl
  simp only [recordedTypes, rename, Seq.exprs_rename, List.filterMap_map]
  congr 1
  funext e
  simp only [Function.comp_apply, hkind, Expr.ann_rename]

/-! ## Programs -/

/-- A renamed program is checked as the program is. -/
theorem check_rename (hf : Function.Injective f) (p : Program α) :
    (p.rename f).check = (p.check.1.mapError (TypeError.rename f), p.check.2.rename f) := by
  have hbody : Check.seq .empty (p.body.rename f) =
      (Check.seq .empty p.body).rename f (Seq.rename f) := Check.seq_rename hf .empty p.body
  simp only [check, rename, hbody]
  rfl

/-- **Names matter only up to a consistent renaming.**  If every name of a program is
renamed by an injective function, then checking records the same types at the same nodes and
ends in the same way, and so does a run, which prints the same.  An error stands where it
stood, and the name in it is renamed. -/
theorem check_run_rename {σ : Type} (hf : Function.Injective f) (p : Program α) :
    (p.rename f).check = (p.check.1.mapError (TypeError.rename f), p.check.2.rename f) ∧
      (p.rename f).check.2.recordedTypes = p.check.2.recordedTypes ∧
      ∀ (sink : Sink σ) (out : σ), (p.rename f).run sink out =
        ((p.run sink out).1.mapError (Fault.rename f), (p.run sink out).2) := by
  have hcheck := check_rename hf p
  refine ⟨hcheck, ?_, fun sink out => run_rename hf sink out p⟩
  rw [hcheck]
  exact recordedTypes_rename f p.check.2

/-- A program that assigns a variable from inside a block, prints it, and then prints the
variable of the block, which is gone; its nodes are annotated with numbers. -/
def assignOuter : Program Nat :=
  ⟨0, .cons 1 (.var 2 ⟨3, "x"⟩ (.int 4 1))
    (.cons 5 (.block (.mk 6 (.cons 7 (.var 8 ⟨9, "y"⟩ (.int 10 2))
      (.cons 11 (.assign 12 ⟨13, "x"⟩ (.name 14 "y")) (.empty 15))) 16))
    (.cons 17 (.print 18 (.name 19 "x")) (.cons 20 (.print 21 (.name 22 "y")) (.empty 23))))⟩

/-- Exchange the names `x` and `y`. -/
def exchange (s : String) : String := if s = "x" then "y" else if s = "y" then "x" else s

theorem exchange_injective : Function.Injective exchange := by
  intro s t h
  unfold exchange at h
  grind

/-- With the names exchanged the program still prints a two, and then it stops at the
variable of the block under its new name. -/
theorem check_run_rename_exchange :
    Function.Injective exchange ∧
      (assignOuter.rename exchange).check =
        (assignOuter.check.1.mapError (TypeError.rename exchange),
          assignOuter.check.2.rename exchange) ∧
      (assignOuter.rename exchange).check.2.recordedTypes = assignOuter.check.2.recordedTypes ∧
      (assignOuter.rename exchange).check.1 = .error ⟨22, .scope (.undeclared "x")⟩ ∧
      (assignOuter.rename exchange).run .all "" =
        (.error ⟨22, .scope (.undeclared "x")⟩, "2\n") := by
  obtain ⟨hcheck, htypes, hrun⟩ := check_run_rename exchange_injective assignOuter
  refine ⟨exchange_injective, hcheck, htypes, ?_, ?_⟩
  · rw [hcheck]
    rfl
  · rw [hrun .all ""]
    rfl

end Program

end PairDict
