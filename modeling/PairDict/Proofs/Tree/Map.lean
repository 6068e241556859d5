import PairDict.Tree

/-! # Replacing annotations

To replace the annotations of a tree twice is to replace them once (`map_map`), and a tree of
which they are replaced by themselves is the same (`map_id`).
-/
namespace PairDict

variable {α β γ : Type}

/-! ## Twice -/

theorem Ident.map_map (f : α → β) (g : β → γ) (x : Ident α) :
    (x.map f).map g = x.map (g ∘ f) := rfl

theorem Expr.map_map (f : α → β) (g : β → γ) (e : Expr α) :
    (e.map f).map g = e.map (g ∘ f) := by
  induction e <;> simp_all [Expr.map]

mutual

theorem Stmt.map_map (f : α → β) (g : β → γ) : ∀ s : Stmt α,
    (s.map f).map g = s.map (g ∘ f)
  | .var a x e | .assign a x e | .print a e => by
    simp only [Stmt.map, Expr.map_map, Ident.map_map, Function.comp_apply]
  | .ifThen a c t => by
    simp only [Stmt.map, Expr.map_map, Block.map_map f g t, Function.comp_apply]
  | .ifElse a c t e => by
    simp only [Stmt.map, Expr.map_map, Block.map_map f g t, Block.map_map f g e,
      Function.comp_apply]
  | .forEach a x d b => by
    simp only [Stmt.map, Expr.map_map, Ident.map_map, Block.map_map f g b, Function.comp_apply]
  | .block b => congrArg Stmt.block (Block.map_map f g b)

theorem Block.map_map (f : α → β) (g : β → γ) : ∀ b : Block α,
    (b.map f).map g = b.map (g ∘ f)
  | .mk a s close => by simp only [Block.map, Seq.map_map f g s, Function.comp_apply]

theorem Seq.map_map (f : α → β) (g : β → γ) : ∀ s : Seq α, (s.map f).map g = s.map (g ∘ f)
  | .empty a => rfl
  | .cons a s rest => by
    simp only [Seq.map, Stmt.map_map f g s, Seq.map_map f g rest, Function.comp_apply]

end

/-! ## By themselves -/

theorem Expr.map_id (e : Expr α) : e.map id = e := by
  induction e <;> simp_all [Expr.map]

theorem Ident.map_id (x : Ident α) : x.map id = x := rfl

mutual

theorem Stmt.map_id : ∀ s : Stmt α, s.map id = s
  | .var a x e | .assign a x e | .print a e => by
    simp only [Stmt.map, Expr.map_id, Ident.map_id, id_eq]
  | .ifThen a c t => by simp only [Stmt.map, Expr.map_id, Block.map_id t, id_eq]
  | .ifElse a c t e => by
    simp only [Stmt.map, Expr.map_id, Block.map_id t, Block.map_id e, id_eq]
  | .forEach a x d b => by
    simp only [Stmt.map, Expr.map_id, Ident.map_id, Block.map_id b, id_eq]
  | .block b => congrArg Stmt.block (Block.map_id b)

theorem Block.map_id : ∀ b : Block α, b.map id = b
  | .mk a s close => by simp only [Block.map, Seq.map_id s, id_eq]

theorem Seq.map_id : ∀ s : Seq α, s.map id = s
  | .empty a => rfl
  | .cons a s rest => by simp only [Seq.map, Stmt.map_id s, Seq.map_id rest, id_eq]

end

theorem Program.map_id (p : Program α) : p.map id = p :=
  congrArg (Program.mk p.ann) (Seq.map_id p.body)

end PairDict
