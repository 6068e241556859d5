import Mathlib.Logic.Basic
import PairDict.Proofs.Typing.Recorded

/-! # A checked program is the program with notes

Checking adds notes to the nodes of a program and leaves it as it is otherwise, however the
check ends: without the notes, the checked tree is the program (`Program.check_tree_map_ann`).
-/
namespace PairDict

variable {α : Type}

namespace Check

/-- The notes on what has not been checked are bare. -/
theorem map_bare_ann (b : Block α) : (b.map Note.bare).map Note.ann = b := by
  rw [Block.map_map]
  exact Block.map_id b

theorem declare_tree_map_ann (Γ : Scope Ty) (x : Ident α) (t : Ty) :
    (declare Γ x t).tree.map Note.ann = x := by
  rw [declare]
  cases Γ.declare x.name t <;> rfl

mutual

theorem stmt_tree_map_ann (Γ : Scope Ty) : ∀ s : Stmt α, (stmt Γ s).tree.map Note.ann = s
  | .var a x e => by
    rw [stmt]
    cases (expr Γ e).type with
    | error f => exact congrArg (Stmt.var a x) (expr_tree_map_ann Γ e)
    | ok t => exact congrArg₂ (Stmt.var a) (declare_tree_map_ann Γ x t) (expr_tree_map_ann Γ e)
  | .assign a x e => by
    rw [stmt]
    cases lookup Γ x.ann x.name with
    | error f => exact congrArg (Stmt.assign a x) ((Expr.map_map ..).trans (Expr.map_id e))
    | ok t => exact congrArg (Stmt.assign a x) (expr_tree_map_ann Γ e)
  | .print a e => congrArg (Stmt.print a) (expr_tree_map_ann Γ e)
  | .ifThen a c t => by
    rw [stmt]
    cases ((expr Γ c).expect .bool).type with
    | error f => exact congrArg₂ (Stmt.ifThen a) (expr_tree_map_ann Γ c) (map_bare_ann t)
    | ok _ => exact congrArg₂ (Stmt.ifThen a) (expr_tree_map_ann Γ c) (block_tree_map_ann Γ t)
  | .ifElse a c t e => by
    rw [stmt]
    have hc : ((expr Γ c).expect .bool).tree.map Note.ann = c := expr_tree_map_ann Γ c
    cases ((expr Γ c).expect .bool).type with
    | error f =>
      show Stmt.ifElse a _ _ _ = _
      rw [hc, map_bare_ann, map_bare_ann]
    | ok _ =>
      dsimp only
      cases (block Γ t).result with
      | error f =>
        show Stmt.ifElse a _ _ _ = _
        rw [hc, block_tree_map_ann, map_bare_ann]
      | ok _ =>
        show Stmt.ifElse a _ _ _ = _
        rw [hc, block_tree_map_ann, block_tree_map_ann]
  | .forEach a x d b => by
    rw [stmt]
    have hd : (expr Γ d).tree.map Note.ann = d := expr_tree_map_ann Γ d
    generalize (do needDict (expr Γ d).tree.ann.ann (← (expr Γ d).type)) = r
    cases r with
    | error f =>
      show Stmt.forEach a x _ _ = _
      rw [hd, map_bare_ann]
    | ok t =>
      dsimp only
      cases (declare Γ.enter x (Ty.entry t)).result with
      | error f =>
        show Stmt.forEach a _ _ _ = _
        rw [declare_tree_map_ann, hd, map_bare_ann]
      | ok _ =>
        show Stmt.forEach a _ _ _ = _
        rw [declare_tree_map_ann, hd, block_tree_map_ann]
  | .block b => congrArg Stmt.block (block_tree_map_ann Γ b)

theorem block_tree_map_ann (Γ : Scope Ty) : ∀ b : Block α, (block Γ b).tree.map Note.ann = b
  | .mk a s close => by
    show Block.mk a _ close = _
    rw [seq_tree_map_ann Γ.enter s]

theorem seq_tree_map_ann (Γ : Scope Ty) : ∀ s : Seq α, (seq Γ s).tree.map Note.ann = s
  | .empty a => rfl
  | .cons a s rest => by
    rw [seq]
    cases (stmt Γ s).result with
    | error f =>
      exact congrArg₂ (Seq.cons a) (stmt_tree_map_ann Γ s)
        ((Seq.map_map ..).trans (Seq.map_id rest))
    | ok _ => exact congrArg₂ (Seq.cons a) (stmt_tree_map_ann Γ s) (seq_tree_map_ann _ rest)

end

end Check

/-- **Without its notes, a checked program is the program.** -/
theorem Program.check_tree_map_ann (p : Program α) : p.check.2.map Note.ann = p :=
  congrArg (Program.mk p.ann) (Check.seq_tree_map_ann .empty p.body)

end PairDict
