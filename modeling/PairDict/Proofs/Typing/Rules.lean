import PairDict.Scope
import PairDict.Tree
import PairDict.Ty

/-! # The typing rules

What it means for a program to be well typed, without saying how that is found
out.  A phrase is judged in a stack of **frames**, the innermost first.

* `Binds Γ x t`: the innermost frame of `Γ` that binds `x` binds it to `t`.
* `HasType Γ e t`: in the frames `Γ` the expression `e` has the type `t`.
* `Stmt.Typed Γ s Γ'`: in the frames `Γ` the statement `s` is well typed, and the
  statements after it are judged in `Γ'`.  `Seq.Typed` says the same of a sequence.
* `Block.Typed Γ b`: the block `b` is well typed inside `Γ`.  What it declares is
  gone when it ends, so it has no frames to hand on.

Only a declaration changes the frames, and only the innermost one, in which its
name must be new.  A block adds an empty frame.  A loop adds a frame that holds
its variable, and the block that is its body adds another one inside that.

A rule names a type twice where two types have to be the same, so types are
compared by structure.  An operator or a dictionary operation without a rule
makes the phrase ill typed.
-/
namespace PairDict

variable {α : Type}

/-- What a name means in a stack of frames. -/
inductive Binds : List (Frame Ty) → String → Ty → Prop where
  | here {f Γ x t} : f.get? x = some t → Binds (f :: Γ) x t
  | outer {f Γ x t} : f.get? x = none → Binds Γ x t → Binds (f :: Γ) x t

/-- The types of expressions. -/
inductive HasType (Γ : List (Frame Ty)) : Expr α → Ty → Prop where
  | name {a x t} : Binds Γ x t → HasType Γ (.name a x) t
  | int {a n} : HasType Γ (.int a n) .int
  | bool {a b} : HasType Γ (.bool a b) .bool
  | pair {a x y s t} : HasType Γ x s → HasType Γ y t → HasType Γ (.pair a x y) (.pair s t)
  | neg {a x} : HasType Γ x .int → HasType Γ (.unary a (.symbol .minus) x) .int
  | not {a x} : HasType Γ x .bool → HasType Γ (.unary a (.symbol .bang) x) .bool
  | fst {a x s t} : HasType Γ x (.pair s t) → HasType Γ (.unary a (.keyword .fst) x) s
  | snd {a x s t} : HasType Γ x (.pair s t) → HasType Γ (.unary a (.keyword .snd) x) t
  | add {a x y} : HasType Γ x .int → HasType Γ y .int →
      HasType Γ (.binary a (.symbol .plus) x y) .int
  | mul {a x y} : HasType Γ x .int → HasType Γ y .int →
      HasType Γ (.binary a (.symbol .star) x y) .int
  | and {a x y} : HasType Γ x .bool → HasType Γ y .bool →
      HasType Γ (.binary a (.symbol .andAnd) x y) .bool
  | eql {a x y t} : HasType Γ x t → HasType Γ y t →
      HasType Γ (.binary a (.symbol .eql) x y) .bool
  | entry {a k v t} : HasType Γ k .int → HasType Γ v t → HasType Γ (.entry a k v) (.dict t)
  | get {a d k t} : HasType Γ d (.dict t) → HasType Γ k .int → HasType Γ (.select a .get d k) t
  | delete {a d k t} : HasType Γ d (.dict t) → HasType Γ k .int →
      HasType Γ (.select a .delete d k) (.dict t)
  /-- A node with all three children may still create: it then has no use for its
  base, of which nothing is required. -/
  | storeCreate {a d k v t} : HasType Γ k .int → HasType Γ v t →
      HasType Γ (.store a .create d k v) (.dict t)
  | storeGet {a d k v t} : HasType Γ d (.dict t) → HasType Γ k .int →
      HasType Γ (.store a .get d k v) t
  | storeDelete {a d k v t} : HasType Γ d (.dict t) → HasType Γ k .int →
      HasType Γ (.store a .delete d k v) (.dict t)
  | storeUpdate {a d k v t} : HasType Γ d (.dict t) → HasType Γ k .int → HasType Γ v t →
      HasType Γ (.store a .update d k v) (.dict t)

mutual

/-- Well-typed statements, and the frames after them. -/
inductive Stmt.Typed : List (Frame Ty) → Stmt α → List (Frame Ty) → Prop where
  | var {f Γ a x e t} : HasType (f :: Γ) e t → f.get? x.name = none →
      Stmt.Typed (f :: Γ) (.var a x e) (((x.name, t) :: f) :: Γ)
  | assign {Γ a x e t} : Binds Γ x.name t → HasType Γ e t → Stmt.Typed Γ (.assign a x e) Γ
  | print {Γ a e t} : HasType Γ e t → Stmt.Typed Γ (.print a e) Γ
  | ifThen {Γ a c b} : HasType Γ c .bool → Block.Typed Γ b → Stmt.Typed Γ (.ifThen a c b) Γ
  | ifElse {Γ a c b b'} : HasType Γ c .bool → Block.Typed Γ b → Block.Typed Γ b' →
      Stmt.Typed Γ (.ifElse a c b b') Γ
  | forEach {Γ a x d b t} : HasType Γ d (.dict t) →
      Block.Typed ([(x.name, .pair .int t)] :: Γ) b → Stmt.Typed Γ (.forEach a x d b) Γ
  | block {Γ b} : Block.Typed Γ b → Stmt.Typed Γ (.block b) Γ

/-- Well-typed blocks. -/
inductive Block.Typed : List (Frame Ty) → Block α → Prop where
  | mk {Γ a s close Γ'} : Seq.Typed ([] :: Γ) s Γ' → Block.Typed Γ (.mk a s close)

/-- Well-typed sequences, and the frames after them. -/
inductive Seq.Typed : List (Frame Ty) → Seq α → List (Frame Ty) → Prop where
  | empty {Γ a} : Seq.Typed Γ (.empty a) Γ
  | cons {Γ a s rest Γ' Γ''} : Stmt.Typed Γ s Γ' → Seq.Typed Γ' rest Γ'' →
      Seq.Typed Γ (.cons a s rest) Γ''

end

/-- A program is well typed if its statements are, one after another, starting
from one empty frame. -/
def Program.WellTyped (p : Program α) : Prop := ∃ Γ, Seq.Typed [[]] p.body Γ

/-! ## Frames

Well-typed statements leave the frames around the innermost one alone. -/

theorem Stmt.Typed.outer {f : Frame Ty} {Γ Γ' : List (Frame Ty)} {s : Stmt α}
    (h : Stmt.Typed (f :: Γ) s Γ') : ∃ f', Γ' = f' :: Γ := by
  cases h with
  | var _ _ => exact ⟨_, rfl⟩
  | assign _ _ | print _ | ifThen _ _ | ifElse _ _ _ | forEach _ _ | block _ => exact ⟨_, rfl⟩

theorem Seq.Typed.outer {f : Frame Ty} {Γ Γ' : List (Frame Ty)} :
    ∀ {s : Seq α}, Seq.Typed (f :: Γ) s Γ' → ∃ f', Γ' = f' :: Γ
  | .empty _, .empty => ⟨_, rfl⟩
  | .cons _ _ _, .cons h hrest => by
    obtain ⟨f', rfl⟩ := h.outer
    exact hrest.outer

end PairDict
