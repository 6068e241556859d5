import PairDict.Tree.Walk

/-! # Places in a tree

The **address** of a node says which child to take at each node on the way down
from the root; children are counted in the order of a walk.  Two trees of the same
shape have the same addresses, so an address names a node of a tree and the node of
the annotated tree that belongs to it.

What processes a tree from the top carries a state down to the nodes.  Its **calls**
say which children of a node it goes on to, and in which states: `calls n s i n' s'`
if the node `n` in the state `s` leads to the child `n'`, which has the number `i`,
in the state `s'`.  `Along calls` follows calls down an address.

* `Along.unique`: calls that are determined by the numbers of the children reach one
  state at an address.
* `Along.simulate`: two processes whose calls correspond reach corresponding states
  at every address.
-/
namespace PairDict

variable {α β S T : Type}

namespace Node

/-- The children of a node in the order of a walk. -/
def children : Node α → List (Node α)
  | .program p => [.seq p.body]
  | .seq (.empty _) => []
  | .seq (.cons _ s rest) => [.stmt s, .seq rest]
  | .stmt (.var _ x e) | .stmt (.assign _ x e) => [.expr x.toExpr, .expr e]
  | .stmt (.print _ e) => [.expr e]
  | .stmt (.ifThen _ c b) => [.expr c, .stmt (.block b)]
  | .stmt (.ifElse _ c b b') => [.expr c, .stmt (.block b), .stmt (.block b')]
  | .stmt (.forEach _ x d b) => [.expr x.toExpr, .expr d, .stmt (.block b)]
  | .stmt (.block b) => [.seq b.body]
  | .expr (.name ..) | .expr (.int ..) | .expr (.bool ..) => []
  | .expr (.unary _ _ x) => [.expr x]
  | .expr (.pair _ x y) | .expr (.binary _ _ x y) | .expr (.entry _ x y)
  | .expr (.select _ _ x y) => [.expr x, .expr y]
  | .expr (.store _ _ d k v) => [.expr d, .expr k, .expr v]

/-- A walk from a node visits it and, if it is entered, walks from its children. -/
theorem walk_eq (enter : Node α → Bool) (n : Node α) :
    n.walk enter = visit enter n (n.children.flatMap (walk enter)) := by
  cases n with
  | program p => simp [walk, Program.walk, children]
  | seq s => cases s <;> simp [walk, Seq.walk, children]
  | stmt s =>
    cases s with
    | block b => cases b; simp [walk, Stmt.walk, Block.walk, children, Block.body]
    | _ => simp [walk, Stmt.walk, children]
  | expr e => cases e <;> simp [walk, Expr.walk, children]

/-- A node is the first that a walk from it visits. -/
theorem mem_walk_self (n : Node α) : n ∈ n.walk fun _ => true := by
  rw [walk_eq]
  exact List.mem_cons_self

theorem mem_walk_of_child {n c n' : Node α} (hc : c ∈ n.children)
    (h : n' ∈ c.walk fun _ => true) : n' ∈ n.walk fun _ => true := by
  rw [walk_eq]
  exact List.mem_cons_of_mem _ (List.mem_flatMap.2 ⟨c, hc, h⟩)

/-- The node at an address. -/
def at? (n : Node α) : List Nat → Option (Node α)
  | [] => some n
  | i :: path => n.children[i]?.bind (·.at? path)

theorem at?_cons {n n' : Node α} {i : Nat} (h : n.children[i]? = some n') (path : List Nat) :
    n.at? (i :: path) = n'.at? path := by
  rw [at?, h]
  rfl

/-- Replace every annotation. -/
def map (f : α → β) : Node α → Node β
  | .program p => .program (p.map f)
  | .seq s => .seq (s.map f)
  | .stmt s => .stmt (s.map f)
  | .expr e => .expr (e.map f)

theorem children_map (f : α → β) (n : Node α) : (n.map f).children = n.children.map (map f) := by
  cases n with
  | program p => rfl
  | seq s => cases s <;> rfl
  | stmt s =>
    cases s with
    | block b => cases b; rfl
    | _ => rfl
  | expr e => cases e <;> rfl

theorem at?_append (n : Node α) (path path' : List Nat) :
    n.at? (path ++ path') = (n.at? path).bind (·.at? path') := by
  induction path generalizing n with
  | nil => rfl
  | cons i path ih =>
    rw [List.cons_append, at?, at?]
    cases n.children[i]? with
    | none => rfl
    | some c => exact ih c

/-! ### Names that are bound or assigned -/

/-- Whether the child with a number is a name that the node binds or assigns. -/
def target : Node α → Nat → Bool
  | .stmt (.var ..), 0 | .stmt (.assign ..), 0 | .stmt (.forEach ..), 0 => true
  | _, _ => false

/-- Whether the child with a number is a name that the node declares. -/
def declares : Node α → Nat → Bool
  | .stmt (.var ..), 0 | .stmt (.forEach ..), 0 => true
  | _, _ => false

theorem target_map (f : α → β) (n : Node α) (i : Nat) : (n.map f).target i = n.target i := by
  cases n with
  | stmt s => cases s <;> cases i <;> rfl
  | _ => rfl

theorem declares_map (f : α → β) (n : Node α) (i : Nat) :
    (n.map f).declares i = n.declares i := by
  cases n with
  | stmt s => cases s <;> cases i <;> rfl
  | _ => rfl

/-- The address is that of a child that `P` tells from its parent and its number. -/
def ChildAt (P : Node α → Nat → Bool) (n : Node α) (path : List Nat) : Prop :=
  ∃ above i m, path = above ++ [i] ∧ n.at? above = some m ∧ P m i = true

/-- What a node binds or assigns is a name. -/
theorem name_of_target {n c : Node α} {i : Nat} (htarget : n.target i = true)
    (hc : n.children[i]? = some c) : ∃ x : Ident α, c = .expr x.toExpr := by
  match n, i, htarget, hc with
  | .stmt (.var _ x _), 0, _, rfl | .stmt (.assign _ x _), 0, _, rfl
  | .stmt (.forEach _ x _ _), 0, _, rfl => exact ⟨x, rfl⟩

variable {P : Node α → Nat → Bool}

theorem not_childAt_nil {n : Node α} : ¬ n.ChildAt P [] := by
  rintro ⟨above, i, -, h, -⟩
  exact List.append_ne_nil_of_right_ne_nil above (List.cons_ne_nil i []) h.symm

theorem childAt_cons_iff {n c : Node α} {i : Nat} {path : List Nat}
    (hc : n.children[i]? = some c) :
    n.ChildAt P (i :: path) ↔ path = [] ∧ P n i = true ∨ c.ChildAt P path := by
  constructor
  · rintro ⟨_ | ⟨j, above⟩, k, m, heq, hat, hP⟩
    · cases heq
      cases hat
      exact .inl ⟨rfl, hP⟩
    · cases heq
      rw [at?_cons hc] at hat
      exact .inr ⟨above, k, m, rfl, hat, hP⟩
  · rintro (⟨rfl, hP⟩ | ⟨above, k, m, rfl, hat, hP⟩)
    · exact ⟨[], i, n, rfl, rfl, hP⟩
    · exact ⟨i :: above, k, m, rfl, (at?_cons hc above).trans hat, hP⟩

end Node

/-- Follow calls down an address. -/
inductive Along (calls : Node α → S → Nat → Node α → S → Prop) :
    Node α → S → List Nat → Node α → S → Prop where
  | here {n s} : Along calls n s [] n s
  | down {n s i n' s' path n'' s''} : calls n s i n' s' → Along calls n' s' path n'' s'' →
      Along calls n s (i :: path) n'' s''

namespace Along

variable {calls : Node α → S → Nat → Node α → S → Prop}
  {calls' : Node α → T → Nat → Node α → T → Prop} {n n' n'' : Node α} {s s' s'' : S}
  {path : List Nat}

/-- Calls that are determined by the number of the child reach one state at an
address. -/
theorem unique (det : ∀ {n s i n' s' n'' s''}, calls n s i n' s' → calls n s i n'' s'' →
      n' = n'' ∧ s' = s'')
    (h : Along calls n s path n' s') (h' : Along calls n s path n'' s'') :
    n' = n'' ∧ s' = s'' := by
  induction h with
  | here => cases h'; exact ⟨rfl, rfl⟩
  | down hc _ ih =>
    cases h' with
    | down hc' h' =>
      obtain ⟨rfl, rfl⟩ := det hc hc'
      exact ih h'

/-- An address is followed in parts. -/
theorem append (h : Along calls n s path n' s') {path' : List Nat}
    (h' : Along calls n' s' path' n'' s'') : Along calls n s (path ++ path') n'' s'' := by
  induction h with
  | here => exact h'
  | down hc _ ih => exact .down hc (ih h')

/-- The last call on the way. -/
theorem last {i : Nat} (h : Along calls n s (path ++ [i]) n'' s'') :
    ∃ n' s', Along calls n s path n' s' ∧ calls n' s' i n'' s'' := by
  induction path generalizing n s with
  | nil =>
    cases h with
    | down hc h => cases h; exact ⟨n, s, .here, hc⟩
  | cons j path ih =>
    cases h with
    | down hc h =>
      obtain ⟨n', s', halong, hlast⟩ := ih h
      exact ⟨n', s', .down hc halong, hlast⟩

/-- Calls that go to children follow an address to the node there. -/
theorem at? (child : ∀ {n s i n' s'}, calls n s i n' s' → n.children[i]? = some n')
    (h : Along calls n s path n' s') : n.at? path = some n' := by
  induction h with
  | here => rfl
  | down hc _ ih => rw [Node.at?_cons (child hc), ih]

/-- A relation between nodes and states that every call carries over to a call of
another process holds all the way down. -/
theorem simulate {R : Node α → S → T → Prop} {t : T}
    (step : ∀ {n s t i n' s'}, R n s t → calls n s i n' s' →
      ∃ t', calls' n t i n' t' ∧ R n' s' t')
    (hr : R n s t) (h : Along calls n s path n' s') :
    ∃ t', Along calls' n t path n' t' ∧ R n' s' t' := by
  induction h generalizing t with
  | here => exact ⟨t, .here, hr⟩
  | down hc _ ih =>
    obtain ⟨t₁, hc', hr₁⟩ := step hr hc
    obtain ⟨t', h', hr'⟩ := ih hr₁
    exact ⟨t', .down hc' h', hr'⟩

end Along

end PairDict
