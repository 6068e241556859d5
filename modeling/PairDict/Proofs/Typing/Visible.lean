import Mathlib.Data.List.Forall2
import PairDict.Proofs.Scope.Frame
import PairDict.Proofs.Typing.Entered

/-! # Types that follow from entered ones

A typing rule looks at one node only: at the types of its children and, if it is a name, at the
type of the declaration that it means (`Follows`).  The types of expressions are what these
rules give when they are applied over and over (`hasType_iff_follows`).

Which declaration a name means is told by the tree alone.  On the way down from the root a node
lets see, inside each of its children, the addresses of the declarations before it, frame by
frame (`Node.inside`), and a name means the innermost one of its spelling
(`Program.declaration?`).  Wherever the checker goes, its scope has the same names in the same
frames, with the types that are entered for these declarations (`Program.visible_reflects`).
-/
namespace PairDict

variable {α : Type}

/-! ## The rule of a node -/

/-- **The typing rule of a node.**  `names` says which types names may have, and `child` which
types the children may have, by their numbers. -/
inductive Follows (names : String → Ty → Prop) (child : Nat → Ty → Prop) : Expr α → Ty → Prop where
  | name {a x t} : names x t → Follows names child (.name a x) t
  | int {a n} : Follows names child (.int a n) .int
  | bool {a b} : Follows names child (.bool a b) .bool
  | pair {a x y s t} : child 0 s → child 1 t → Follows names child (.pair a x y) (.pair s t)
  | neg {a x} : child 0 .int → Follows names child (.unary a (.symbol .minus) x) .int
  | not {a x} : child 0 .bool → Follows names child (.unary a (.symbol .bang) x) .bool
  | fst {a x s t} : child 0 (.pair s t) → Follows names child (.unary a (.keyword .fst) x) s
  | snd {a x s t} : child 0 (.pair s t) → Follows names child (.unary a (.keyword .snd) x) t
  | add {a x y} : child 0 .int → child 1 .int →
      Follows names child (.binary a (.symbol .plus) x y) .int
  | mul {a x y} : child 0 .int → child 1 .int →
      Follows names child (.binary a (.symbol .star) x y) .int
  | and {a x y} : child 0 .bool → child 1 .bool →
      Follows names child (.binary a (.symbol .andAnd) x y) .bool
  | eql {a x y t} : child 0 t → child 1 t → Follows names child (.binary a (.symbol .eql) x y) .bool
  | entry {a k v t} : child 0 .int → child 1 t → Follows names child (.entry a k v) (.dict t)
  | get {a d k t} : child 0 (.dict t) → child 1 .int → Follows names child (.select a .get d k) t
  | delete {a d k t} : child 0 (.dict t) → child 1 .int →
      Follows names child (.select a .delete d k) (.dict t)
  /-- A node with all three children may still create: it then has no use for its base. -/
  | storeCreate {a d k v t} : child 1 .int → child 2 t →
      Follows names child (.store a .create d k v) (.dict t)
  | storeGet {a d k v t} : child 0 (.dict t) → child 1 .int →
      Follows names child (.store a .get d k v) t
  | storeDelete {a d k v t} : child 0 (.dict t) → child 1 .int →
      Follows names child (.store a .delete d k v) (.dict t)
  | storeUpdate {a d k v t} : child 0 (.dict t) → child 1 .int → child 2 t →
      Follows names child (.store a .update d k v) (.dict t)

theorem Follows.mono {names names' : String → Ty → Prop} {child child' : Nat → Ty → Prop}
    {e : Expr α} {t : Ty} (h : Follows names child e t) (hn : ∀ {x t}, names x t → names' x t)
    (hc : ∀ {i t}, child i t → child' i t) : Follows names' child' e t := by
  cases h with
  | name h => exact .name (hn h)
  | int => exact .int
  | bool => exact .bool
  | pair h h' => exact .pair (hc h) (hc h')
  | neg h => exact .neg (hc h)
  | not h => exact .not (hc h)
  | fst h => exact .fst (hc h)
  | snd h => exact .snd (hc h)
  | add h h' => exact .add (hc h) (hc h')
  | mul h h' => exact .mul (hc h) (hc h')
  | and h h' => exact .and (hc h) (hc h')
  | eql h h' => exact .eql (hc h) (hc h')
  | entry h h' => exact .entry (hc h) (hc h')
  | get h h' => exact .get (hc h) (hc h')
  | delete h h' => exact .delete (hc h) (hc h')
  | storeCreate h h' => exact .storeCreate (hc h) (hc h')
  | storeGet h h' => exact .storeGet (hc h) (hc h')
  | storeDelete h h' => exact .storeDelete (hc h) (hc h')
  | storeUpdate h h' h'' => exact .storeUpdate (hc h) (hc h') (hc h'')

/-- The child of an expression with a number has the type `t`. -/
def ChildHasType (Γ : List (Frame Ty)) (e : Expr α) (i : Nat) (t : Ty) : Prop :=
  ∃ e', (Node.expr e).children[i]? = some (.expr e') ∧ HasType Γ e' t

theorem ChildHasType.of {Γ : List (Frame Ty)} {e e' : Expr α} {i : Nat} {t : Ty}
    (h : ChildHasType Γ e i t) (hchild : (Node.expr e).children[i]? = some (.expr e')) :
    HasType Γ e' t := by
  obtain ⟨c, hc, ht⟩ := h
  obtain ⟨⟩ := hchild.symm.trans hc
  exact ht

/-- **An expression has the types that follow from those of its children.** -/
theorem hasType_iff_follows {Γ : List (Frame Ty)} {e : Expr α} {t : Ty} :
    HasType Γ e t ↔ Follows (Binds Γ) (ChildHasType Γ e) e t := by
  constructor
  · intro h
    cases h with
    | name h => exact .name h
    | int => exact .int
    | bool => exact .bool
    | pair h h' => exact .pair ⟨_, rfl, h⟩ ⟨_, rfl, h'⟩
    | neg h => exact .neg ⟨_, rfl, h⟩
    | not h => exact .not ⟨_, rfl, h⟩
    | fst h => exact .fst ⟨_, rfl, h⟩
    | snd h => exact .snd ⟨_, rfl, h⟩
    | add h h' => exact .add ⟨_, rfl, h⟩ ⟨_, rfl, h'⟩
    | mul h h' => exact .mul ⟨_, rfl, h⟩ ⟨_, rfl, h'⟩
    | and h h' => exact .and ⟨_, rfl, h⟩ ⟨_, rfl, h'⟩
    | eql h h' => exact .eql ⟨_, rfl, h⟩ ⟨_, rfl, h'⟩
    | entry h h' => exact .entry ⟨_, rfl, h⟩ ⟨_, rfl, h'⟩
    | get h h' => exact .get ⟨_, rfl, h⟩ ⟨_, rfl, h'⟩
    | delete h h' => exact .delete ⟨_, rfl, h⟩ ⟨_, rfl, h'⟩
    | storeCreate h h' => exact .storeCreate ⟨_, rfl, h⟩ ⟨_, rfl, h'⟩
    | storeGet h h' => exact .storeGet ⟨_, rfl, h⟩ ⟨_, rfl, h'⟩
    | storeDelete h h' => exact .storeDelete ⟨_, rfl, h⟩ ⟨_, rfl, h'⟩
    | storeUpdate h h' h'' => exact .storeUpdate ⟨_, rfl, h⟩ ⟨_, rfl, h'⟩ ⟨_, rfl, h''⟩
  · intro h
    cases h with
    | name h => exact .name h
    | int => exact .int
    | bool => exact .bool
    | pair h h' => exact .pair (h.of rfl) (h'.of rfl)
    | neg h => exact .neg (h.of rfl)
    | not h => exact .not (h.of rfl)
    | fst h => exact .fst (h.of rfl)
    | snd h => exact .snd (h.of rfl)
    | add h h' => exact .add (h.of rfl) (h'.of rfl)
    | mul h h' => exact .mul (h.of rfl) (h'.of rfl)
    | and h h' => exact .and (h.of rfl) (h'.of rfl)
    | eql h h' => exact .eql (h.of rfl) (h'.of rfl)
    | entry h h' => exact .entry (h.of rfl) (h'.of rfl)
    | get h h' => exact .get (h.of rfl) (h'.of rfl)
    | delete h h' => exact .delete (h.of rfl) (h'.of rfl)
    | storeCreate h h' => exact .storeCreate (h.of rfl) (h'.of rfl)
    | storeGet h h' => exact .storeGet (h.of rfl) (h'.of rfl)
    | storeDelete h h' => exact .storeDelete (h.of rfl) (h'.of rfl)
    | storeUpdate h h' h'' => exact .storeUpdate (h.of rfl) (h'.of rfl) (h''.of rfl)

/-! ## Declarations in sight -/

namespace Node

/-- What is in sight inside the child with a number: for each name the address of its
declaration, frame by frame.  The node is at `here`, where `Δ` is in sight. -/
def inside (n : Node α) (here : List Nat) (Δ : Scope (List Nat)) (i : Nat) : Scope (List Nat) :=
  match n, i with
  | .program _, _ => .empty
  | .seq (.cons _ (.var _ x _) _), 1 => ⟨(x.name, here ++ [0, 0]) :: Δ.inner, Δ.outer⟩
  | .stmt (.forEach _ x _ _), 2 => ⟨[(x.name, here ++ [0])], Δ.frames⟩
  | .stmt (.block _), _ => Δ.enter
  | _, _ => Δ

/-- What is in sight at an address below the node. -/
def visible (n : Node α) (here : List Nat) (Δ : Scope (List Nat)) : List Nat → Scope (List Nat)
  | [] => Δ
  | i :: path =>
    match n.children[i]? with
    | some c => c.visible (here ++ [i]) (n.inside here Δ i) path
    | none => Δ

end Node

/-- The address of the declaration that a name means at an address. -/
def Program.declaration? (p : Program α) (path : List Nat) (x : String) : Option (List Nat) :=
  Scope.find? x ((Node.program p).visible [] .empty path).frames

/-- Where the one stack of frames has a name with a type, the other one has the address of a
declaration of that type. -/
def Reflects (defs : List Nat → Option Ty) : List (Frame Ty) → List (Frame (List Nat)) → Prop :=
  List.Forall₂ (List.Forall₂ fun b d => b.1 = d.1 ∧ defs d.2 = some b.2)

namespace Reflects

variable {defs : List Nat → Option Ty} {f : Frame Ty} {g : Frame (List Nat)}
  {Γ : List (Frame Ty)} {Δ : List (Frame (List Nat))} {x : String} {t : Ty}

theorem get?_eq_none (h : List.Forall₂ (fun b d => b.1 = d.1 ∧ defs d.2 = some b.2) f g)
    (hx : f.get? x = none) : g.get? x = none := by
  induction h with
  | nil => rfl
  | @cons b d f g hbd _ ih =>
    obtain ⟨y, s⟩ := b
    obtain ⟨_, decl⟩ := d
    obtain ⟨rfl, -⟩ := hbd
    by_cases hy : x = y
    · subst hy
      rw [Frame.get?_cons_self] at hx
      cases hx
    · rw [Frame.get?_cons_of_ne hy] at hx ⊢
      exact ih hx

theorem get?_eq_some (h : List.Forall₂ (fun b d => b.1 = d.1 ∧ defs d.2 = some b.2) f g)
    (hx : f.get? x = some t) : ∃ decl, g.get? x = some decl ∧ defs decl = some t := by
  induction h with
  | nil => cases hx
  | @cons b d f g hbd _ ih =>
    obtain ⟨y, s⟩ := b
    obtain ⟨_, decl⟩ := d
    obtain ⟨rfl, hdecl⟩ := hbd
    by_cases hy : x = y
    · subst hy
      rw [Frame.get?_cons_self] at hx ⊢
      cases hx
      exact ⟨decl, rfl, hdecl⟩
    · rw [Frame.get?_cons_of_ne hy] at hx ⊢
      exact ih hx

/-- A name means a declaration of its type. -/
theorem find? (h : Reflects defs Γ Δ) (hx : Binds Γ x t) :
    ∃ decl, Scope.find? x Δ = some decl ∧ defs decl = some t := by
  induction h with
  | nil => cases hx
  | @cons f g Γ Δ hfg _ ih =>
    cases hx with
    | here hx =>
      obtain ⟨decl, hg, hdecl⟩ := get?_eq_some hfg hx
      exact ⟨decl, by simp [Scope.find?, hg], hdecl⟩
    | outer hx hrest =>
      obtain ⟨decl, hfind, hdecl⟩ := ih hrest
      refine ⟨decl, ?_, hdecl⟩
      rw [← hfind]
      simp [Scope.find?, get?_eq_none hfg hx]

theorem enter (h : Reflects defs Γ Δ) : Reflects defs ([] :: Γ) ([] :: Δ) := .cons .nil h

/-- A declaration of a new name. -/
theorem declare {decl : List Nat} (h : Reflects defs (f :: Γ) (g :: Δ))
    (hdecl : defs decl = some t) : Reflects defs (((x, t) :: f) :: Γ) (((x, decl) :: g) :: Δ) := by
  cases h with
  | cons hfg hrest => exact .cons (.cons ⟨rfl, hdecl⟩ hfg) hrest

end Reflects

/-- What is in sight inside a child is reflected by the scope that the checker has there. -/
theorem Check.Calls.reflects {p : Program α} {n n' : Node α} {Γ Γ' : Scope Ty} {i : Nat}
    {here : List Nat} {Δ : Scope (List Nat)} (h : Calls n Γ i n' Γ')
    (habove : Along Calls (.program p) .empty here n Γ)
    (hr : Reflects p.info.defOf? Γ.frames Δ.frames) :
    Reflects p.info.defOf? Γ'.frames (n.inside here Δ i).frames := by
  cases h with
  | program => exact .cons .nil .nil
  | @first a s rest Γ => cases s <;> exact hr
  | @rest a s rest Γ hs =>
    have htyped : Stmt.Typed Γ.frames s (stmt Γ s).scope.frames := stmt_typed_iff.2 ⟨hs, rfl⟩
    have hfirst := habove.append (.down .first .here)
    generalize (stmt Γ s).scope.frames = fs at htyped ⊢
    generalize hΓ : Γ.frames = gs at htyped hr
    cases htyped with
    | @var f Θ b x e t he hx =>
      obtain ⟨⟩ := hΓ
      have hdeclares : Declares Γ (.var b x e) t := .var (expr_type_eq_ok_iff.2 he) hx
      have hdef : p.info.defOf? (here ++ [0] ++ [0]) = some t :=
        Program.defOf?_eq_some_iff.2 ⟨_, _, Γ, rfl, hfirst, hdeclares⟩
      rw [List.append_assoc] at hdef
      exact hr.declare hdef
    | assign _ _ | print _ | ifThen _ _ | ifElse _ _ _ | forEach _ _ | block _ => exact hr
  | ifElseNo _ _ =>
    rw [block_scope]
    exact hr
  | @forEachBody a x d b Γ t hd _ =>
    have hdef : p.info.defOf? (here ++ [0]) = some (Ty.entry t) :=
      Program.defOf?_eq_some_iff.2 ⟨here, _, Γ, rfl, habove, .forEach hd⟩
    rw [declare_scope rfl]
    exact hr.enter.declare hdef
  | block => exact hr.enter
  | _ => exact hr

/-- **Wherever the checker goes, its scope has the types that are entered for the declarations
in sight.** -/
theorem Program.visible_reflects {p : Program α} {n : Node α} {Γ : Scope Ty} {path : List Nat}
    (h : Along Check.Calls (.program p) .empty path n Γ) :
    Reflects p.info.defOf? Γ.frames ((Node.program p).visible [] .empty path).frames := by
  have hbelow : ∀ {m n : Node α} {Γ Γ' : Scope Ty} {here path : List Nat} {Δ : Scope (List Nat)},
      Along Check.Calls m Γ path n Γ' → Along Check.Calls (.program p) .empty here m Γ →
      Reflects p.info.defOf? Γ.frames Δ.frames →
      Reflects p.info.defOf? Γ'.frames (m.visible here Δ path).frames := by
    intro m n Γ Γ' here path Δ halong
    induction halong generalizing here Δ with
    | here => exact fun _ hr => hr
    | @down m Γ i c Γ₁ path _ _ hcall _ ih =>
      intro habove hr
      rw [Node.visible, hcall.child]
      exact ih (habove.append (.down hcall .here)) (hcall.reflects habove hr)
  exact hbelow h .here (.cons .nil .nil)

end PairDict
