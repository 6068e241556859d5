import PairDict.Proofs.Scope.Frame
import PairDict.Proofs.Tree.Relabel

/-! # Renaming variables

`rename f` replaces every name of a tree by its image under `f`.  The shape of the tree, its
operators and its annotations stay as they are.  The names of a scope, and the name that an
error is about, are renamed in the same way.

If `f` is injective, then names that differ still differ afterwards.  So every operation on
a renamed scope does to the image of a name what the operation on the scope itself does to
the name (`Scope.lookup_rename`, `Scope.declare_rename`, `Scope.update_rename`), and this is
all that checking and running a renamed tree rests on.
-/
namespace PairDict

variable {α β : Type}

/-! ## Trees -/

/-- Rename a name where it is bound or assigned. -/
def Ident.rename (f : String → String) (x : Ident α) : Ident α := ⟨x.ann, f x.name⟩

/-- Rename every name of an expression. -/
def Expr.rename (f : String → String) : Expr α → Expr α
  | .name a x => .name a (f x)
  | .int a n => .int a n
  | .bool a b => .bool a b
  | .pair a x y => .pair a (x.rename f) (y.rename f)
  | .unary a op x => .unary a op (x.rename f)
  | .binary a op x y => .binary a op (x.rename f) (y.rename f)
  | .entry a k v => .entry a (k.rename f) (v.rename f)
  | .select a op d k => .select a op (d.rename f) (k.rename f)
  | .store a op d k v => .store a op (d.rename f) (k.rename f) (v.rename f)

mutual

/-- Rename every name of a statement. -/
def Stmt.rename (f : String → String) : Stmt α → Stmt α
  | .var a x e => .var a (x.rename f) (e.rename f)
  | .assign a x e => .assign a (x.rename f) (e.rename f)
  | .print a e => .print a (e.rename f)
  | .ifThen a c b => .ifThen a (c.rename f) (b.rename f)
  | .ifElse a c b b' => .ifElse a (c.rename f) (b.rename f) (b'.rename f)
  | .forEach a x d b => .forEach a (x.rename f) (d.rename f) (b.rename f)
  | .block b => .block (b.rename f)

/-- Rename every name of a block. -/
def Block.rename (f : String → String) : Block α → Block α
  | .mk a s close => .mk a (s.rename f) close

/-- Rename every name of a sequence. -/
def Seq.rename (f : String → String) : Seq α → Seq α
  | .empty a => .empty a
  | .cons a s rest => .cons a (s.rename f) (rest.rename f)

end

/-- Rename every name of a program. -/
def Program.rename (f : String → String) (p : Program α) : Program α := ⟨p.ann, p.body.rename f⟩

@[simp] theorem Expr.ann_rename (f : String → String) (e : Expr α) :
    (e.rename f).ann = e.ann := by
  cases e <;> rfl

/-! Renaming commutes with what replaces annotations. -/

theorem Expr.map_rename (f : String → String) (g : α → β) (e : Expr α) :
    (e.rename f).map g = (e.map g).rename f := by
  induction e with
  | name | int | bool => rfl
  | unary a op x ih => simp only [rename, map, ih]
  | pair a x y ihx ihy | binary a op x y ihx ihy | entry a x y ihx ihy | select a op x y ihx ihy =>
    simp only [rename, map, ihx, ihy]
  | store a op d k v ihd ihk ihv => simp only [rename, map, ihd, ihk, ihv]

mutual

theorem Stmt.map_rename (f : String → String) (g : α → β) : ∀ s : Stmt α,
    (s.rename f).map g = (s.map g).rename f
  | .var a x e | .assign a x e => by
    simp only [Stmt.rename, Stmt.map, Expr.map_rename]
    rfl
  | .print a e => by simp only [Stmt.rename, Stmt.map, Expr.map_rename]
  | .ifThen a c b => by simp only [Stmt.rename, Stmt.map, Expr.map_rename, b.map_rename f g]
  | .ifElse a c b b' => by
    simp only [Stmt.rename, Stmt.map, Expr.map_rename, b.map_rename f g, b'.map_rename f g]
  | .forEach a x d b => by
    simp only [Stmt.rename, Stmt.map, Expr.map_rename, b.map_rename f g]
    rfl
  | .block b => by simp only [Stmt.rename, Stmt.map, b.map_rename f g]

theorem Block.map_rename (f : String → String) (g : α → β) : ∀ b : Block α,
    (b.rename f).map g = (b.map g).rename f
  | .mk a s close => by simp only [Block.rename, Block.map, s.map_rename f g]

theorem Seq.map_rename (f : String → String) (g : α → β) : ∀ s : Seq α,
    (s.rename f).map g = (s.map g).rename f
  | .empty a => rfl
  | .cons a s rest => by simp only [Seq.rename, Seq.map, s.map_rename f g, rest.map_rename f g]

end

/-! ## Errors -/

/-- The error about the renamed name. -/
def ScopeError.rename (f : String → String) : ScopeError → ScopeError
  | .undeclared x => .undeclared (f x)
  | .alreadyDeclared x => .alreadyDeclared (f x)

/-! ## Scopes -/

namespace Frame

/-- Rename every name that a frame binds. -/
def rename (f : String → String) (fr : Frame β) : Frame β := fr.map fun b => (f b.1, b.2)

variable {f : String → String}

@[simp] theorem rename_cons (f : String → String) (x : String) (v : β) (fr : Frame β) :
    rename f ((x, v) :: fr) = (f x, v) :: rename f fr := rfl

theorem get?_rename (hf : Function.Injective f) (fr : Frame β) (x : String) :
    (fr.rename f).get? (f x) = fr.get? x := by
  induction fr with
  | nil => rfl
  | cons b fr ih =>
    obtain ⟨y, v⟩ := b
    by_cases hxy : x = y
    · subst hxy
      rw [rename_cons, get?_cons_self, get?_cons_self]
    · have himage : f x ≠ f y := fun h => hxy (hf h)
      rw [rename_cons, get?_cons_of_ne himage, get?_cons_of_ne hxy, ih]

theorem set_rename (hf : Function.Injective f) (fr : Frame β) (x : String) (v : β) :
    (fr.rename f).set (f x) v = (fr.set x v).rename f := by
  induction fr with
  | nil => rfl
  | cons b fr ih =>
    obtain ⟨y, w⟩ := b
    by_cases hxy : x = y
    · subst hxy
      rw [rename_cons, set_cons_self, set_cons_self, rename_cons, ih]
    · have himage : f x ≠ f y := fun h => hxy (hf h)
      rw [rename_cons, set_cons_of_ne himage, set_cons_of_ne hxy, rename_cons, ih]

end Frame

namespace Scope

/-- Rename every name that a scope binds. -/
def rename (f : String → String) (s : Scope β) : Scope β :=
  ⟨s.inner.rename f, s.outer.map (Frame.rename f)⟩

variable {f : String → String}

@[simp] theorem enter_rename (f : String → String) (s : Scope β) :
    (s.rename f).enter = s.enter.rename f := rfl

@[simp] theorem leave_rename (f : String → String) (s : Scope β) :
    (s.rename f).leave = s.leave.rename f := by
  obtain ⟨fr, outer⟩ := s
  cases outer <;> rfl

theorem find?_rename (hf : Function.Injective f) (fs : List (Frame β)) (x : String) :
    find? (f x) (fs.map (Frame.rename f)) = find? x fs := by
  induction fs with
  | nil => rfl
  | cons fr fs ih =>
    simp only [find?, List.map_cons, List.findSome?_cons, Frame.get?_rename hf] at ih ⊢
    rw [ih]

theorem lookup_rename (hf : Function.Injective f) (s : Scope β) (x : String) :
    (s.rename f).lookup (f x) = (s.lookup x).mapError (ScopeError.rename f) := by
  have hfind : find? (f x) (s.rename f).frames = find? x s.frames := find?_rename hf s.frames x
  unfold lookup
  rw [hfind]
  cases find? x s.frames <;> rfl

theorem declare_rename (hf : Function.Injective f) (s : Scope β) (x : String) (v : β) :
    (s.rename f).declare (f x) v =
      ((s.declare x v).map (rename f)).mapError (ScopeError.rename f) := by
  have hget : (s.rename f).inner.get? (f x) = s.inner.get? x := Frame.get?_rename hf s.inner x
  unfold declare
  rw [hget]
  cases s.inner.get? x <;> rfl

theorem updateFrames_rename (hf : Function.Injective f) (x : String) (v : β)
    (fs : List (Frame β)) :
    updateFrames (f x) v (fs.map (Frame.rename f)) =
      (updateFrames x v fs).map (List.map (Frame.rename f)) := by
  induction fs with
  | nil => rfl
  | cons fr fs ih =>
    rw [List.map_cons, updateFrames, updateFrames, Frame.get?_rename hf]
    cases fr.get? x with
    | some w =>
      simp only [Option.map_some, List.map_cons, Frame.set_rename hf]
    | none =>
      simp only [ih, Option.map_map]
      rfl

theorem update_rename (hf : Function.Injective f) (s : Scope β) (x : String) (v : β) :
    (s.rename f).update (f x) v =
      ((s.update x v).map (rename f)).mapError (ScopeError.rename f) := by
  have hget : (s.rename f).inner.get? (f x) = s.inner.get? x := Frame.get?_rename hf s.inner x
  have hset : (s.rename f).inner.set (f x) v = (s.inner.set x v).rename f :=
    Frame.set_rename hf s.inner x v
  have houter : updateFrames (f x) v (s.rename f).outer =
      (updateFrames x v s.outer).map (List.map (Frame.rename f)) :=
    updateFrames_rename hf x v s.outer
  unfold update
  rw [hget, hset, houter]
  cases s.inner.get? x with
  | some w => rfl
  | none => cases updateFrames x v s.outer <;> rfl

end Scope

end PairDict
