import Mathlib.Logic.Basic
import PairDict.Proofs.Typing.Recorded
import PairDict.Typing.Checker

/-! # The table of a checked tree

A checker with a table enters what `Program.check` notes in the tree, in the order in which it
finds it out.  The table of a tree with notes (`Expr.table`, `Stmt.table`) lists the notes in
that order, and a step of the checker is told by how it ends, the entries it adds and the scope
it leaves (`Checker.Does`).  Steps are put together by one lemma for binding (`Does.bind`); each
operation on types then agrees with the operation on checked trees, and so the checker agrees
with the check (`Program.checkInto_eq`).

Nothing is noted of what a check does not come to, so nothing of it is in the table
(`Expr.table_clear`, `Seq.table_bare`).
-/
namespace PairDict

variable {α β γ : Type}

/-! ## Tables -/

namespace Info

/-- Newer entries before older ones. -/
instance : Append Info := ⟨fun i j => ⟨i.types ++ j.types, i.defs ++ j.defs⟩⟩

theorem types_append (i j : Info) : (i ++ j).types = i.types ++ j.types := rfl

theorem defs_append (i j : Info) : (i ++ j).defs = i.defs ++ j.defs := rfl

@[simp] theorem empty_append (i : Info) : empty ++ i = i := rfl

@[simp] theorem append_empty (i : Info) : i ++ empty = i := by
  obtain ⟨types, defs⟩ := i
  exact congrArg₂ Info.mk (List.append_nil types) (List.append_nil defs)

theorem append_assoc (i j k : Info) : i ++ j ++ k = i ++ (j ++ k) :=
  congrArg₂ Info.mk (List.append_assoc ..) (List.append_assoc ..)

end Info

namespace Note

/-- The entry for an expression with the note. -/
def typeEntry (path : List Nat) (n : Note α) : Info :=
  ⟨(n.type.map (path, ·)).toList, []⟩

/-- The entry for a declared name with the note. -/
def defEntry (path : List Nat) (n : Note α) : Info :=
  ⟨[], (n.type.map (path, ·)).toList⟩

end Note

/-- The table of the expression at `path`. -/
def Expr.table (path : List Nat) : Expr (Note α) → Info
  | .name n _ | .int n _ | .bool n _ => n.typeEntry path
  | .pair n x y | .binary n _ x y =>
    n.typeEntry path ++ (y.table (path ++ [1]) ++ x.table (path ++ [0]))
  | .unary n _ x => n.typeEntry path ++ x.table (path ++ [0])
  | .entry n k v => n.typeEntry path ++ (v.table (path ++ [1]) ++ k.table (path ++ [0]))
  | .select n _ d k => n.typeEntry path ++ (d.table (path ++ [0]) ++ k.table (path ++ [1]))
  | .store n _ d k v =>
    n.typeEntry path ++
      (v.table (path ++ [2]) ++ (d.table (path ++ [0]) ++ k.table (path ++ [1])))

mutual

/-- The table of the statement at `path`. -/
def Stmt.table (path : List Nat) : Stmt (Note α) → Info
  | .var _ x e => x.ann.defEntry (path ++ [0]) ++ e.table (path ++ [1])
  | .assign _ _ e => e.table (path ++ [1])
  | .print _ e => e.table (path ++ [0])
  | .ifThen _ c t => t.table (path ++ [1]) ++ c.table (path ++ [0])
  | .ifElse _ c t e => e.table (path ++ [2]) ++ t.table (path ++ [1]) ++ c.table (path ++ [0])
  | .forEach _ x d b =>
    b.table (path ++ [2]) ++ x.ann.defEntry (path ++ [0]) ++ d.table (path ++ [1])
  | .block b => b.table path

/-- The table of the block at `path`. -/
def Block.table (path : List Nat) : Block (Note α) → Info
  | .mk _ s _ => s.table (path ++ [0])

/-- The table of the sequence at `path`. -/
def Seq.table (path : List Nat) : Seq (Note α) → Info
  | .empty _ => .empty
  | .cons _ s rest => rest.table (path ++ [1]) ++ s.table (path ++ [0])

end

/-! ## What has not been checked -/

/-- Nothing is in the table of a tree without types. -/
theorem Expr.table_map {f : β → Note α} (hf : ∀ a, (f a).type = none) (e : Expr β)
    (path : List Nat) : (e.map f).table path = .empty := by
  have hentry : ∀ a path, (f a).typeEntry path = .empty := by
    intro a path
    rw [Note.typeEntry, hf]
    rfl
  induction e generalizing path <;> simp [map, table, *]

theorem Expr.table_clear (e : Expr (Note α)) (path : List Nat) :
    (e.map Note.clear).table path = .empty :=
  table_map (fun _ => rfl) e path

theorem Expr.table_bare (e : Expr α) (path : List Nat) : (e.map Note.bare).table path = .empty :=
  table_map (fun _ => rfl) e path

mutual

theorem Stmt.table_bare : ∀ (s : Stmt α) (path : List Nat), (s.map Note.bare).table path = .empty
  | .var a x e, path => by
    rw [Stmt.map, Stmt.table, Expr.table_bare]
    rfl
  | .assign a x e, path | .print a e, path => by rw [Stmt.map, Stmt.table, Expr.table_bare]
  | .ifThen a c t, path => by
    rw [Stmt.map, Stmt.table, Expr.table_bare, Block.table_bare t]
    rfl
  | .ifElse a c t e, path => by
    rw [Stmt.map, Stmt.table, Expr.table_bare, Block.table_bare t, Block.table_bare e]
    rfl
  | .forEach a x d b, path => by
    rw [Stmt.map, Stmt.table, Expr.table_bare, Block.table_bare b]
    rfl
  | .block b, path => by rw [Stmt.map, Stmt.table, Block.table_bare b]

theorem Block.table_bare : ∀ (b : Block α) (path : List Nat),
    (b.map Note.bare).table path = .empty
  | .mk a s close, path => by rw [Block.map, Block.table, Seq.table_bare s]

theorem Seq.table_bare : ∀ (s : Seq α) (path : List Nat), (s.map Note.bare).table path = .empty
  | .empty a, path => rfl
  | .cons a s rest, path => by
    rw [Seq.map, Seq.table, Stmt.table_bare s, Seq.table_bare rest]
    rfl

end

/-- What comes after an expression has its type if both are well typed. -/
theorem Check.Typed.after_type (e r : Typed α) :
    (e.after r).type = r.type >>= fun _ => e.type := by
  unfold after
  cases r.type <;> rfl

namespace Checker

/-! ## Steps -/

/-- The end of a step, with the checker that it leaves. -/
def ended (r : Except (TypeError α) β) (c : Checker) :
    EStateM.Result (TypeError α) Checker β :=
  match r with
  | .ok b => .ok b c
  | .error f => .error f c

/-- In the scope `Γ` the step ends as `r` says, adds the entries `i` to the table if there is
one, and leaves the scope `Δ`. -/
def Does (step : Checking α β) (Γ : Scope Ty) (r : Except (TypeError α) β) (i : Info)
    (Δ : Scope Ty) : Prop :=
  ∀ info, step ⟨Γ, info⟩ = ended r ⟨Δ, info.map (i ++ ·)⟩

theorem map_empty_append (info : Option Info) : info.map (Info.empty ++ ·) = info :=
  congrFun Option.map_id info

namespace Does

variable {step : Checking α β} {next : β → Checking α γ} {Γ Δ Θ : Scope Ty}
  {r : Except (TypeError α) β} {i j : Info}

theorem ofExcept (r : Except (TypeError α) β) (Γ : Scope Ty) :
    Does (ofExcept r) Γ r .empty Γ := by
  intro info
  rw [map_empty_append]
  rfl

theorem pure (b : β) (Γ : Scope Ty) : Does (pure b : Checking α β) Γ (.ok b) .empty Γ :=
  ofExcept (.ok b) Γ

theorem throw (f : TypeError α) (Γ : Scope Ty) :
    Does (throw f : Checking α β) Γ (.error f) .empty Γ :=
  ofExcept (.error f) Γ

theorem bind_of_ok {r : Except (TypeError α) γ} {b : β} (h : Does step Γ (.ok b) i Δ)
    (h' : Does (next b) Δ r j Θ) : Does (step >>= next) Γ r (j ++ i) Θ := by
  intro info
  show EStateM.bind step next ⟨Γ, info⟩ = _
  rw [EStateM.bind, h info]
  refine (h' (info.map (i ++ ·))).trans ?_
  rw [Option.map_map]
  refine congrArg (fun add => ended r ⟨Θ, info.map add⟩) (funext fun k => ?_)
  exact (Info.append_assoc j i k).symm

/-- What follows a step that enters nothing. -/
theorem bind_of_quiet {r : Except (TypeError α) γ} {b : β} (h : Does step Γ (.ok b) .empty Δ)
    (h' : Does (next b) Δ r j Θ) : Does (step >>= next) Γ r j Θ := by
  have hboth := h.bind_of_ok h'
  rwa [Info.append_empty] at hboth

theorem bind_of_error {f : TypeError α} (h : Does step Γ (.error f) i Δ) :
    Does (step >>= next) Γ (.error f) i Δ := by
  intro info
  show EStateM.bind step next ⟨Γ, info⟩ = _
  rw [EStateM.bind, h info]
  rfl

/-- **One step after the other.**  After an error the second one does nothing. -/
theorem bind {g : β → Except (TypeError α) γ} (h : Does step Γ r i Δ)
    (hok : ∀ b, r = .ok b → Does (next b) Δ (g b) j Θ)
    (herror : ∀ f, r = .error f → j = .empty ∧ Θ = Δ) :
    Does (step >>= next) Γ (r >>= g) (j ++ i) Θ := by
  cases r with
  | ok b => exact h.bind_of_ok (hok b rfl)
  | error f =>
    obtain ⟨rfl, rfl⟩ := herror f rfl
    exact h.bind_of_error

/-- What a step gives may be changed. -/
theorem map {g : β → Except (TypeError α) γ} (h : Does step Γ r i Δ)
    (hok : ∀ b, Does (next b) Δ (g b) .empty Δ) : Does (step >>= next) Γ (r >>= g) i Δ :=
  h.bind (fun b _ => hok b) fun _ _ => ⟨rfl, rfl⟩

/-- What a step gives may be dropped. -/
theorem drop (h : Does step Γ r i Δ) :
    Does (do let _ ← step : Checking α Unit) Γ (do let _ ← r) i Δ := by
  have hunit := h.map (g := fun _ => .ok ()) fun _ => .pure () Δ
  cases r with
  | ok b => exact hunit
  | error f => exact hunit

/-- A frame of its own is closed however the step in it ends. -/
theorem inFrame {step : Checking α Unit} {r : Except (TypeError α) Unit}
    (h : Does step Γ.enter r i Δ) : Does (Checker.inFrame step) Γ r i Δ.leave := by
  intro info
  unfold Checker.inFrame
  rw [h info]
  cases r <;> rfl

end Does

theorem lookup_does (Γ : Scope Ty) (a : α) (x : String) :
    Does (lookup a x) Γ (Check.lookup Γ a x) .empty Γ :=
  fun info => Does.ofExcept (Check.lookup Γ a x) Γ info

/-! ## Expressions -/

/-- The step finds out what the check of an expression does, in the scope `Γ`, which it leaves
as it is.  The expression stands at `path`. -/
def Finds (step : Checking α Ty) (Γ : Scope Ty) (path : List Nat) (r : Check.Typed α) : Prop :=
  Does step Γ r.type (r.tree.table path) Γ

namespace Finds

open Check (Typed)

variable {step x y z : Checking α Ty} {Γ : Scope Ty} {path p q o : List Nat}
  {r rx ry rz : Typed α} {a : α}

/-- An expression that is not reached gets no entries. -/
theorem table_after {f : TypeError α} (h : r.type = .error f) (rx : Typed α) :
    (rx.after r).tree.table path = .empty := by
  rw [Typed.after, h]
  exact Expr.table_clear rx.tree path

theorem require (h : Finds step Γ path r) (want : Ty) :
    Finds (require r.tree.ann.ann want step) Γ path (r.expect want) := by
  refine h.map fun t => ?_
  split
  · exact .pure t Γ
  · exact .throw _ Γ

/-- What comes after an operand adds the entries of the next one, which is not reached if there
was an error. -/
theorem andThen {next : Ty → Checking α γ} {g : Ty → Except (TypeError α) γ} (hx : Finds x Γ p rx)
    (hok : ∀ s, ry.after rx = ry →
      Does (next s) Γ (g s) (ry.tree.table q) Γ) :
    Does (x >>= next) Γ (rx.type >>= g) ((ry.after rx).tree.table q ++ rx.tree.table p) Γ := by
  refine Does.bind hx (fun s hs => ?_) fun f hf => ⟨table_after hf ry, rfl⟩
  have hself := Typed.after_eq_self (e := ry) hs
  rw [hself]
  exact hok s hself

/-- One operand after another, and then an operation on their types. -/
theorem both {next : Ty → Ty → Checking α Ty} {g : Ty → Ty → Except (TypeError α) Ty}
    (hx : Finds x Γ p rx) (hy : Finds y Γ q ry)
    (hnext : ∀ s t, Does (next s t) Γ (g s t) .empty Γ) :
    Does (x >>= fun s => y >>= next s) Γ
      (rx.type >>= fun s => (ry.after rx).type >>= g s)
      ((ry.after rx).tree.table q ++ rx.tree.table p) Γ := by
  refine hx.andThen fun s hself => ?_
  rw [hself]
  exact hy.map (hnext s)

/-- One operand after another, of which the second one gives the type. -/
theorem second (hx : Finds x Γ p rx) (hy : Finds y Γ q ry) :
    Does (x >>= fun _ => y) Γ (ry.after rx).type
      ((ry.after rx).tree.table q ++ rx.tree.table p) Γ := by
  rw [Typed.after_type]
  exact hx.andThen fun _ _ => hy

/-- The type of a node is entered after what its operands add. -/
theorem node {type : Except (TypeError α) Ty} {i : Info}
    {build : Note α → Expr (Note α)} (h : Does step Γ type i Γ)
    (hbuild : ∀ n, (build n).table path = n.typeEntry path ++ i) :
    Finds (entering path step) Γ path (Check.node a type build) := by
  intro info
  show EStateM.bind step _ ⟨Γ, info⟩ = _
  rw [EStateM.bind, h info, Check.node, hbuild]
  cases type with
  | ok t =>
    show EStateM.Result.ok t (Checker.mk Γ ((info.map (i ++ ·)).map (·.addType path t))) = _
    rw [Option.map_map]
    rfl
  | error f => rfl

/-- A node that is none adds nothing. -/
theorem none {build : Note α → Expr (Note α)} (f : TypeError α)
    (hbuild : ∀ n, (build n).table path = n.typeEntry path) :
    Finds (entering path (throw f)) Γ path (Check.node a (throw f) build) :=
  node (.throw f Γ) fun n => (hbuild n).trans (Info.append_empty _).symm

theorem unary (hx : Finds x Γ (path ++ [0]) rx) (op : Token) :
    Finds (entering path (Checker.unary a op rx.tree.ann.ann x)) Γ path
      (Check.unary a op rx) := by
  unfold Checker.unary
  split
  · exact node (hx.require .int) fun _ => rfl
  · exact node (hx.require .bool) fun _ => rfl
  · refine node ?_ fun _ => rfl
    exact hx.map fun t => (Does.ofExcept _ Γ).map fun p => .pure p.1 Γ
  · refine node ?_ fun _ => rfl
    exact hx.map fun t => (Does.ofExcept _ Γ).map fun p => .pure p.2 Γ
  · next hminus hbang hfst hsnd =>
    unfold Check.unary
    split
    · exact (hminus rfl).elim
    · exact (hbang rfl).elim
    · exact (hfst rfl).elim
    · exact (hsnd rfl).elim
    · refine none _ fun n => ?_
      rw [Expr.table, Expr.table_clear, Info.append_empty]

theorem uniform (hx : Finds x Γ (path ++ [0]) rx) (hy : Finds y Γ (path ++ [1]) ry) (op : Token)
    (t : Ty) :
    Finds (entering path (Checker.uniform t rx.tree.ann.ann ry.tree.ann.ann x y)) Γ path
      (Check.uniform a op t rx ry) := by
  refine node ?_ fun _ => rfl
  exact (hx.require t).second (hy.require t)

theorem binary (hx : Finds x Γ (path ++ [0]) rx) (hy : Finds y Γ (path ++ [1]) ry)
    (op : Token) :
    Finds (entering path (Checker.binary a op rx.tree.ann.ann ry.tree.ann.ann x y)) Γ path
      (Check.binary a op rx ry) := by
  unfold Checker.binary
  split
  · exact hx.uniform hy _ .int
  · exact hx.uniform hy _ .int
  · exact hx.uniform hy _ .bool
  · refine node ?_ fun _ => rfl
    refine hx.andThen fun s hself => ?_
    rw [hself]
    exact (hy.require s).map fun _ => .pure Ty.bool Γ
  · next hplus hstar hand heql =>
    unfold Check.binary
    split
    · exact (hplus rfl).elim
    · exact (hstar rfl).elim
    · exact (hand rfl).elim
    · exact (heql rfl).elim
    · refine none _ fun n => ?_
      rw [Expr.table, Expr.table_clear, Expr.table_clear, Info.append_empty, Info.append_empty]

/-- A new dictionary, whatever its node is. -/
theorem entry {build : Note α → Expr (Note α) → Expr (Note α) → Expr (Note α)}
    (hx : Finds x Γ p rx) (hy : Finds y Γ q ry)
    (hbuild : ∀ n k v, (build n k v).table path = n.typeEntry path ++ (v.table q ++ k.table p)) :
    Finds (entering path (Checker.entry rx.tree.ann.ann x y)) Γ path
      (Check.entry a rx ry build) := by
  refine node ?_ fun n => hbuild n _ _
  show Does _ Γ ((ry.after (rx.expect Ty.key)).type >>= fun t => .ok (Ty.dict t)) _ Γ
  rw [Typed.after_type, bind_assoc]
  exact (hx.require Ty.key).andThen fun _ _ => hy.map fun t => .pure (Ty.dict t) Γ

/-- The base of an operation on a dictionary comes after the key. -/
theorem based (hx : Finds x Γ p rx) (hy : Finds y Γ q ry) :
    Does (Checker.based rx.tree.ann.ann ry.tree.ann.ann x y) Γ (Check.based rx ry).1
      ((Check.based rx ry).2.1.tree.table p ++ (Check.based rx ry).2.2.tree.table q) Γ := by
  show Does _ Γ ((rx.after (ry.expect Ty.key)).type >>= Check.needDict _) _ Γ
  rw [Typed.after_type, bind_assoc]
  refine (hy.require Ty.key).andThen fun s hself => ?_
  rw [hself]
  exact hx.map fun t => .ofExcept _ Γ

theorem select (hx : Finds x Γ (path ++ [0]) rx) (hy : Finds y Γ (path ++ [1]) ry)
    (op : SelectOp) :
    Finds (entering path (Checker.select a op rx.tree.ann.ann ry.tree.ann.ann x y)) Γ path
      (Check.select a op rx ry) := by
  have hbased := based hx hy
  refine node ?_ fun _ => rfl
  cases op with
  | get =>
    show Does (Checker.based _ _ x y >>= pure) Γ _ _ Γ
    rw [bind_pure]
    exact hbased
  | delete => exact hbased.map fun t => .pure (Ty.dict t) Γ
  | other n => exact hbased.map fun _ => .throw _ Γ

theorem store (hx : Finds x Γ (path ++ [0]) rx) (hy : Finds y Γ (path ++ [1]) ry)
    (hz : Finds z Γ (path ++ [2]) rz) (op : DictOp) :
    Finds
      (entering path
        (Checker.store a op rx.tree.ann.ann ry.tree.ann.ann rz.tree.ann.ann x y z)) Γ path
      (Check.store a op rx ry rz) := by
  have hbased := based hx hy
  have hidle : ∀ n : Note α, (Expr.store n op (Check.based rx ry).2.1.tree
      (Check.based rx ry).2.2.tree (rz.tree.map Note.clear)).table path =
        n.typeEntry path ++ ((Check.based rx ry).2.1.tree.table (path ++ [0]) ++
          (Check.based rx ry).2.2.tree.table (path ++ [1])) := by
    intro n
    rw [Expr.table, Expr.table_clear, Info.empty_append]
  cases op with
  | create =>
    refine entry hy hz fun n k v => ?_
    rw [Expr.table, Expr.table_clear, Info.empty_append]
  | get =>
    refine node ?_ hidle
    show Does (Checker.based _ _ x y >>= pure) Γ _ _ Γ
    rw [bind_pure]
    exact hbased
  | delete => exact node (hbased.map fun t => .pure (Ty.dict t) Γ) hidle
  | other n => exact node (hbased.map fun _ => .throw _ Γ) hidle
  | update =>
    refine node ?_ fun _ => rfl
    refine Does.bind hbased (fun t ht => ?_) fun f hf => ⟨table_after (r := ⟨_, _⟩) hf rz, rfl⟩
    rw [Typed.after_eq_self (r := ⟨_, _⟩) ht]
    exact (hz.require t).map fun _ => .pure (Ty.dict t) Γ

end Finds

/-- The annotation of an expression is not changed. -/
theorem expr_tree_ann_ann (Γ : Scope Ty) (e : Expr α) : (Check.expr Γ e).tree.ann.ann = e.ann := by
  rw [Check.expr_tree_ann]

/-- **A checker finds out of an expression what its check does.** -/
theorem expr_finds (Γ : Scope Ty) (e : Expr α) (path : List Nat) :
    Finds (expr path e) Γ path (Check.expr Γ e) := by
  induction e generalizing path with
  | name a x => exact Finds.node (lookup_does Γ a x) fun _ => (Info.append_empty _).symm
  | int a n => exact Finds.node (.pure Ty.int Γ) fun _ => (Info.append_empty _).symm
  | bool a b => exact Finds.node (.pure Ty.bool Γ) fun _ => (Info.append_empty _).symm
  | pair a x y ihx ihy =>
    exact Finds.node ((ihx _).both (ihy _) fun s t => .pure (Ty.pair s t) Γ) fun _ => rfl
  | unary a op x ih =>
    have h := (ih (path ++ [0])).unary (a := a) op
    rwa [expr_tree_ann_ann] at h
  | binary a op x y ihx ihy =>
    have h := (ihx (path ++ [0])).binary (a := a) (ihy (path ++ [1])) op
    rwa [expr_tree_ann_ann, expr_tree_ann_ann] at h
  | entry a k v ihk ihv =>
    show Finds (entering path (entry k.ann _ _)) Γ path _
    rw [← expr_tree_ann_ann Γ k]
    exact (ihk (path ++ [0])).entry (ihv (path ++ [1])) fun _ _ _ => rfl
  | select a op d k ihd ihk =>
    have h := (ihd (path ++ [0])).select (a := a) (ihk (path ++ [1])) op
    rwa [expr_tree_ann_ann, expr_tree_ann_ann] at h
  | store a op d k v ihd ihk ihv =>
    have h := (ihd (path ++ [0])).store (a := a) (ihk (path ++ [1])) (ihv (path ++ [2])) op
    rwa [expr_tree_ann_ann, expr_tree_ann_ann, expr_tree_ann_ann] at h

/-! ## Statements -/

theorem declare_does (Γ : Scope Ty) (x : Ident α) (t : Ty) (path : List Nat) :
    Does (declare path x t) Γ (Check.declare Γ x t).result
      ((Check.declare Γ x t).tree.ann.defEntry path) (Check.declare Γ x t).scope := by
  intro info
  unfold declare Check.declare
  cases Γ.declare x.name t with
  | ok Γ' => rfl
  | error e =>
    exact congrArg (fun info => EStateM.Result.error _ (Checker.mk Γ info))
      (map_empty_append info).symm

mutual

/-- **A checker does with a statement what its check does.** -/
theorem stmt_does (Γ : Scope Ty) : ∀ (s : Stmt α) (path : List Nat),
    Does (stmt path s) Γ (Check.stmt Γ s).result ((Check.stmt Γ s).tree.table path)
      (Check.stmt Γ s).scope
  -- in each case, where a part ends in an error nothing is noted of the parts behind it
  | .var a x e, path => by
    have he := expr_finds Γ e (path ++ [1])
    unfold Finds at he
    rw [stmt, Check.stmt]
    cases hv : (Check.expr Γ e).type with
    | error f =>
      rw [hv] at he
      exact he.bind_of_error
    | ok t =>
      rw [hv] at he
      exact he.bind_of_ok (declare_does Γ x t (path ++ [0]))
  | .assign a x e, path => by
    have hx := lookup_does Γ x.ann x.name
    rw [stmt, Check.stmt]
    cases hlookup : Check.lookup Γ x.ann x.name with
    | error f =>
      rw [hlookup] at hx
      have he : (e.map Note.bare).table (path ++ [1]) = .empty := Expr.table_bare e _
      dsimp only
      rw [Stmt.table, he]
      exact hx.bind_of_error
    | ok t =>
      rw [hlookup] at hx
      have he := (expr_finds Γ e (path ++ [1])).require t
      rw [expr_tree_ann_ann] at he
      exact hx.bind_of_quiet (Does.drop he)
  | .print a e, path => Does.drop (expr_finds Γ e (path ++ [0]))
  | .ifThen a c t, path => by
    have hc := (expr_finds Γ c (path ++ [0])).require .bool
    unfold Finds at hc
    rw [expr_tree_ann_ann] at hc
    rw [stmt, Check.stmt]
    cases hcond : ((Check.expr Γ c).expect .bool).type with
    | error f =>
      rw [hcond] at hc
      dsimp only
      rw [Stmt.table, Block.table_bare t]
      exact hc.bind_of_error
    | ok _ =>
      rw [hcond] at hc
      exact hc.bind_of_ok (block_does Γ t (path ++ [1]))
  | .ifElse a c t e, path => by
    have hc := (expr_finds Γ c (path ++ [0])).require .bool
    unfold Finds at hc
    rw [expr_tree_ann_ann] at hc
    rw [stmt, Check.stmt]
    cases hcond : ((Check.expr Γ c).expect .bool).type with
    | error f =>
      rw [hcond] at hc
      dsimp only
      rw [Stmt.table, Block.table_bare t, Block.table_bare e]
      exact hc.bind_of_error
    | ok _ =>
      rw [hcond] at hc
      have ht := block_does Γ t (path ++ [1])
      dsimp only
      cases hyes : (Check.block Γ t).result with
      | error f =>
        rw [hyes] at ht
        have he : (e.map Note.bare).table (path ++ [2]) = .empty := Block.table_bare e _
        dsimp only
        rw [Stmt.table, he, Info.empty_append]
        exact hc.bind_of_ok ht.bind_of_error
      | ok _ =>
        rw [hyes] at ht
        exact hc.bind_of_ok (ht.bind_of_ok (block_does _ e (path ++ [2])))
  | .forEach a x d b, path => by
    have hd : Does (expr (path ++ [1]) d >>= fun t => ofExcept (Check.needDict d.ann t)) Γ
        ((Check.expr Γ d).type >>= Check.needDict d.ann)
        ((Check.expr Γ d).tree.table (path ++ [1])) Γ :=
      Does.map (expr_finds Γ d (path ++ [1])) fun t => .ofExcept _ Γ
    have hbare : (b.map Note.bare).table (path ++ [2]) = .empty := Block.table_bare b _
    rw [stmt, Check.stmt, expr_tree_ann_ann, ← bind_assoc]
    cases hdict : (Check.expr Γ d).type >>= Check.needDict d.ann with
    | error f =>
      rw [hdict] at hd
      dsimp only
      rw [Stmt.table, hbare]
      exact hd.bind_of_error
    | ok t =>
      rw [hdict] at hd
      have hx := declare_does Γ.enter x (Ty.entry t) (path ++ [0])
      dsimp only
      cases hbound : (Check.declare Γ.enter x (Ty.entry t)).result with
      | error f =>
        rw [hbound] at hx
        dsimp only
        rw [Stmt.table, hbare]
        exact hd.bind_of_ok hx.bind_of_error.inFrame
      | ok _ =>
        rw [hbound] at hx
        exact hd.bind_of_ok (hx.bind_of_ok (block_does _ b (path ++ [2]))).inFrame
  | .block b, path => block_does Γ b path

theorem block_does (Γ : Scope Ty) : ∀ (b : Block α) (path : List Nat),
    Does (block path b) Γ (Check.block Γ b).result ((Check.block Γ b).tree.table path)
      (Check.block Γ b).scope
  | .mk _ s _, path => (seq_does Γ.enter s (path ++ [0])).inFrame

theorem seq_does (Γ : Scope Ty) : ∀ (s : Seq α) (path : List Nat),
    Does (seq path s) Γ (Check.seq Γ s).result ((Check.seq Γ s).tree.table path)
      (Check.seq Γ s).scope
  | .empty a, path => .pure () Γ
  | .cons a s rest, path => by
    have hs := stmt_does Γ s (path ++ [0])
    rw [seq, Check.seq]
    cases hfirst : (Check.stmt Γ s).result with
    | error f =>
      rw [hfirst] at hs
      have hrest : (rest.map Note.bare).table (path ++ [1]) = .empty := Seq.table_bare rest _
      show Does _ Γ _ ((rest.map Note.bare).table _ ++ _) _
      rw [hrest]
      exact hs.bind_of_error
    | ok _ =>
      rw [hfirst] at hs
      exact hs.bind_of_ok (seq_does _ rest (path ++ [1]))

end

end Checker

/-- **A checker ends as the check of a program does**, and adds the table of the checked tree to
its table, if it has one. -/
theorem Program.checkInto_eq (info : Option Info) (p : Program α) :
    p.checkInto info = (p.check.1, info.map (p.check.2.body.table [0] ++ ·)) := by
  have h := Checker.seq_does .empty p.body [0] info
  rw [checkInto, h, check]
  cases (Check.seq .empty p.body).result <;> rfl

end PairDict
