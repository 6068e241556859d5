import PairDict.Proofs.Tree.Address
import PairDict.Proofs.Tree.Map
import PairDict.Proofs.Typing.Decided

/-! # What a successful check records

The checker walks down the tree and carries a scope along.  `Check.Calls` says which
children of a node it goes on to and in which scopes.  A part of a node that has no type
of its own is not among them (`Node.idle`): a name where it is bound, and an operand for
which the operation of a dictionary node has no use.

In a program that is accepted the checker goes to every other part (`Check.reaches`),
which is well typed in the frames of the scope that the checker has there, and stands in
the checked tree at the same address (`Check.visited`).  So an expression has **exactly
one type** in those frames, the type that is recorded at it, and together with the lemmas
about single statements this makes the checker a decision procedure for the typing rules
(`Program.check_decides_typing`).
-/
namespace PairDict

variable {α : Type}

/-- The operators that may stand before an operand. -/
def Token.unaryOps : List Token := [.symbol .minus, .symbol .bang, .keyword .fst, .keyword .snd]

/-- The operators that may stand between operands, the comma apart. -/
def Token.binaryOps : List Token :=
  [.symbol .plus, .symbol .star, .symbol .andAnd, .symbol .eql]

namespace Check

/-! ## Where the checker goes -/

/-- The type that an operator requires of its left operand, if it requires one. -/
def leftType? : Token → Option Ty
  | .symbol .plus | .symbol .star => some .int
  | .symbol .andAnd => some .bool
  | _ => none

/-- The operands that are checked when an expression is, by their numbers.  A
premise is what has to have gone well before. -/
inductive Operand (Γ : Scope Ty) : Expr α → Nat → Expr α → Prop where
  | pairLeft {a x y} : Operand Γ (.pair a x y) 0 x
  | pairRight {a x y s} : (expr Γ x).type = .ok s → Operand Γ (.pair a x y) 1 y
  | unary {a op x} : op ∈ Token.unaryOps → Operand Γ (.unary a op x) 0 x
  | binaryLeft {a op x y} : op ∈ Token.binaryOps → Operand Γ (.binary a op x y) 0 x
  | binaryRight {a op x y s} : op ∈ Token.binaryOps → (expr Γ x).type = .ok s →
      (∀ t, leftType? op = some t → s = t) → Operand Γ (.binary a op x y) 1 y
  | entryKey {a k v} : Operand Γ (.entry a k v) 0 k
  | entryValue {a k v} : (expr Γ k).type = .ok .int → Operand Γ (.entry a k v) 1 v
  | selectKey {a op d k} : Operand Γ (.select a op d k) 1 k
  | selectBase {a op d k} : (expr Γ k).type = .ok .int → Operand Γ (.select a op d k) 0 d
  | storeKey {a op d k v} : Operand Γ (.store a op d k v) 1 k
  | storeBase {a op d k v} : op ≠ .create → (expr Γ k).type = .ok .int →
      Operand Γ (.store a op d k v) 0 d
  | createValue {a d k v} : (expr Γ k).type = .ok .int → Operand Γ (.store a .create d k v) 2 v
  | updateValue {a d k v t} : (expr Γ k).type = .ok .int → (expr Γ d).type = .ok (.dict t) →
      Operand Γ (.store a .update d k v) 2 v

/-- The children that are checked when a node is, by their numbers, and the scopes
in which they are.  A premise is what has to have gone well before. -/
inductive Calls : Node α → Scope Ty → Nat → Node α → Scope Ty → Prop where
  | program {p Γ} : Calls (.program p) Γ 0 (.seq p.body) .empty
  | first {a s rest Γ} : Calls (.seq (.cons a s rest)) Γ 0 (.stmt s) Γ
  | rest {a s rest Γ} : (stmt Γ s).result = .ok () →
      Calls (.seq (.cons a s rest)) Γ 1 (.seq rest) (stmt Γ s).scope
  | var {a x e Γ} : Calls (.stmt (.var a x e)) Γ 1 (.expr e) Γ
  | assign {a x e Γ t} : lookup Γ x.ann x.name = .ok t →
      Calls (.stmt (.assign a x e)) Γ 1 (.expr e) Γ
  | print {a e Γ} : Calls (.stmt (.print a e)) Γ 0 (.expr e) Γ
  | ifThenCond {a c b Γ} : Calls (.stmt (.ifThen a c b)) Γ 0 (.expr c) Γ
  | ifThenYes {a c b Γ} : (expr Γ c).type = .ok .bool →
      Calls (.stmt (.ifThen a c b)) Γ 1 (.stmt (.block b)) Γ
  | ifElseCond {a c b b' Γ} : Calls (.stmt (.ifElse a c b b')) Γ 0 (.expr c) Γ
  | ifElseYes {a c b b' Γ} : (expr Γ c).type = .ok .bool →
      Calls (.stmt (.ifElse a c b b')) Γ 1 (.stmt (.block b)) Γ
  | ifElseNo {a c b b' Γ} : (expr Γ c).type = .ok .bool → (block Γ b).result = .ok () →
      Calls (.stmt (.ifElse a c b b')) Γ 2 (.stmt (.block b')) (block Γ b).scope
  | forEachDict {a x d b Γ} : Calls (.stmt (.forEach a x d b)) Γ 1 (.expr d) Γ
  | forEachBody {a x d b Γ t} : (expr Γ d).type = .ok (.dict t) →
      (declare Γ.enter x (Ty.entry t)).result = .ok () →
      Calls (.stmt (.forEach a x d b)) Γ 2 (.stmt (.block b))
        (declare Γ.enter x (Ty.entry t)).scope
  | block {b Γ} : Calls (.stmt (.block b)) Γ 0 (.seq b.body) Γ.enter
  | operand {e i e' Γ} : Operand Γ e i e' → Calls (.expr e) Γ i (.expr e') Γ

theorem Operand.child {Γ : Scope Ty} {e e' : Expr α} {i : Nat} (h : Operand Γ e i e') :
    (Node.expr e).children[i]? = some (.expr e') := by
  cases h <;> rfl

/-- The checker goes to children. -/
theorem Calls.child {n n' : Node α} {Γ Γ' : Scope Ty} {i : Nat} (h : Calls n Γ i n' Γ') :
    n.children[i]? = some n' := by
  cases h with
  | operand h => exact h.child
  | _ => rfl

/-- The scope in which a child is checked is determined by its number. -/
theorem Calls.det {n n' n'' : Node α} {Γ Γ' Γ'' : Scope Ty} {i : Nat} (h : Calls n Γ i n' Γ')
    (h' : Calls n Γ i n'' Γ'') : n' = n'' ∧ Γ' = Γ'' := by
  have hn : n' = n'' := Option.some.inj (h.child.symm.trans h'.child)
  refine ⟨hn, ?_⟩
  -- only in the body of a loop does the scope depend on a type
  cases h with
  | forEachBody hd _ =>
    cases h' with
    | forEachBody hd' _ =>
      rw [hd] at hd'
      cases hd'
      rfl
  | _ =>
    cases h'
    rfl

end Check

/-! ## Parts without a type -/

namespace Node

/-- Whether the child with a number has no type of its own: it is a name that is bound or
assigned, or an operand that the operation of a dictionary node disregards. -/
def idle : Node α → Nat → Bool
  | .stmt (.var ..), 0 | .stmt (.assign ..), 0 | .stmt (.forEach ..), 0 => true
  | .expr (.store _ .create ..), 0 => true
  | .expr (.store _ .get ..), 2 | .expr (.store _ .delete ..), 2 => true
  | _, _ => false

/-- The children of expressions are expressions. -/
theorem expr_of_child {e : Expr α} {c : Node α} {i : Nat}
    (h : (Node.expr e).children[i]? = some c) : ∃ e', c = .expr e' := by
  have hmem : c ∈ (Node.expr e).children := List.mem_of_getElem? h
  cases e <;> simp only [children, List.mem_cons, List.not_mem_nil, or_false] at hmem <;> grind

/-- The node at an address, unless the way there leads through an idle child. -/
def live? (n : Node α) : List Nat → Option (Node α)
  | [] => some n
  | i :: path => if n.idle i then none else n.children[i]?.bind (·.live? path)

end Node

/-! ## Well-typed nodes -/

/-- Whether a node is well typed in a stack of frames. -/
def Node.Typed (Γ : List (Frame Ty)) : Node α → Prop
  | .program p => p.WellTyped
  | .seq s => ∃ Δ, Seq.Typed Γ s Δ
  | .stmt s => ∃ Δ, Stmt.Typed Γ s Δ
  | .expr e => ∃ t, HasType Γ e t

namespace Check

theorem Operand.typed {Γ : Scope Ty} {e e' : Expr α} {i : Nat} {t : Ty}
    (ht : HasType Γ.frames e t) (h : Operand Γ e i e') : ∃ t', HasType Γ.frames e' t' := by
  cases ht with
  | name _ | int | bool => cases h
  | pair hx hy =>
    cases h with
    | pairLeft => exact ⟨_, hx⟩
    | pairRight _ => exact ⟨_, hy⟩
  | neg hx | not hx | fst hx | snd hx =>
    cases h with
    | unary _ => exact ⟨_, hx⟩
  | add hx hy | mul hx hy | and hx hy | eql hx hy =>
    cases h with
    | binaryLeft _ => exact ⟨_, hx⟩
    | binaryRight _ _ _ => exact ⟨_, hy⟩
  | entry hk hv =>
    cases h with
    | entryKey => exact ⟨_, hk⟩
    | entryValue _ => exact ⟨_, hv⟩
  | get hd hk | delete hd hk =>
    cases h with
    | selectKey => exact ⟨_, hk⟩
    | selectBase _ => exact ⟨_, hd⟩
  | storeCreate hk hv =>
    cases h with
    | storeKey => exact ⟨_, hk⟩
    | storeBase hop _ => exact absurd rfl hop
    | createValue _ => exact ⟨_, hv⟩
  | storeGet hd hk | storeDelete hd hk =>
    cases h with
    | storeKey => exact ⟨_, hk⟩
    | storeBase _ _ => exact ⟨_, hd⟩
  | storeUpdate hd hk hv =>
    cases h with
    | storeKey => exact ⟨_, hk⟩
    | storeBase _ _ => exact ⟨_, hd⟩
    | updateValue _ _ => exact ⟨_, hv⟩

/-- What the checker goes to from a well-typed node is well typed where it goes. -/
theorem Calls.typed {n n' : Node α} {Γ Γ' : Scope Ty} {i : Nat} (ht : n.Typed Γ.frames)
    (h : Calls n Γ i n' Γ') : n'.Typed Γ'.frames := by
  cases h with
  | program => exact ht
  | first =>
    obtain ⟨_, hs⟩ := ht
    cases hs with
    | cons hs _ => exact ⟨_, hs⟩
  | rest =>
    obtain ⟨_, hs⟩ := ht
    cases hs with
    | cons hs hrest => exact ⟨_, (stmt_typed_iff.1 hs).2 ▸ hrest⟩
  | var =>
    obtain ⟨_, hs⟩ := ht
    -- the rule shows the stack as a frame and the frames around it
    generalize hΓ : Γ.frames = fs at hs ⊢
    cases hs with
    | var he _ => exact ⟨_, he⟩
  | assign _ =>
    obtain ⟨_, hs⟩ := ht
    cases hs with
    | assign _ he => exact ⟨_, he⟩
  | print =>
    obtain ⟨_, hs⟩ := ht
    cases hs with
    | print he => exact ⟨_, he⟩
  | ifThenCond =>
    obtain ⟨_, hs⟩ := ht
    cases hs with
    | ifThen hc _ => exact ⟨_, hc⟩
  | ifThenYes _ =>
    obtain ⟨_, hs⟩ := ht
    cases hs with
    | ifThen _ hb => exact ⟨_, .block hb⟩
  | ifElseCond =>
    obtain ⟨_, hs⟩ := ht
    cases hs with
    | ifElse hc _ _ => exact ⟨_, hc⟩
  | ifElseYes _ =>
    obtain ⟨_, hs⟩ := ht
    cases hs with
    | ifElse _ hb _ => exact ⟨_, .block hb⟩
  | ifElseNo _ _ =>
    obtain ⟨_, hs⟩ := ht
    cases hs with
    | ifElse _ _ hb' =>
      rw [block_scope]
      exact ⟨_, .block hb'⟩
  | forEachDict =>
    obtain ⟨_, hs⟩ := ht
    cases hs with
    | forEach hd _ => exact ⟨_, hd⟩
  | forEachBody hd _ =>
    obtain ⟨_, hs⟩ := ht
    cases hs with
    | forEach hd' hb =>
      rw [expr_type_eq_ok_iff.2 hd'] at hd
      cases hd
      rw [declare_scope rfl]
      exact ⟨_, .block hb⟩
  | @block b =>
    obtain ⟨_, hs⟩ := ht
    cases hs with
    | block hb =>
      cases hb with
      | mk hs => exact ⟨_, hs⟩
  | operand h =>
    obtain ⟨_, he⟩ := ht
    exact h.typed he

/-- The operands of a well-typed expression are checked, unless they are idle. -/
theorem Operand.total {Γ : Scope Ty} {e e' : Expr α} {i : Nat} {t : Ty}
    (ht : HasType Γ.frames e t) (hidle : (Node.expr e).idle i = false)
    (hc : (Node.expr e).children[i]? = some (.expr e')) : Operand Γ e i e' := by
  cases ht with
  | name _ | int | bool => cases hc
  | pair hx _ =>
    match i, hc with
    | 0, rfl => exact .pairLeft
    | 1, rfl => exact .pairRight (expr_type_eq_ok_iff.2 hx)
  | neg _ | not _ | fst _ | snd _ =>
    match i, hc with
    | 0, rfl => exact .unary (by decide)
  | add hx _ | mul hx _ | and hx _ =>
    match i, hc with
    | 0, rfl => exact .binaryLeft (by decide)
    | 1, rfl =>
      exact .binaryRight (by decide) (expr_type_eq_ok_iff.2 hx) fun _ h => Option.some.inj h
  | eql hx _ =>
    match i, hc with
    | 0, rfl => exact .binaryLeft (by decide)
    | 1, rfl => exact .binaryRight (by decide) (expr_type_eq_ok_iff.2 hx) nofun
  | entry hk _ =>
    match i, hc with
    | 0, rfl => exact .entryKey
    | 1, rfl => exact .entryValue (expr_type_eq_ok_iff.2 hk)
  | get _ hk | delete _ hk =>
    match i, hc with
    | 0, rfl => exact .selectBase (expr_type_eq_ok_iff.2 hk)
    | 1, rfl => exact .selectKey
  | storeCreate hk _ =>
    match i, hc with
    | 0, _ => cases hidle
    | 1, rfl => exact .storeKey
    | 2, rfl => exact .createValue (expr_type_eq_ok_iff.2 hk)
  | storeGet _ hk | storeDelete _ hk =>
    match i, hc with
    | 0, rfl => exact .storeBase nofun (expr_type_eq_ok_iff.2 hk)
    | 1, rfl => exact .storeKey
    | 2, _ => cases hidle
  | storeUpdate hd hk _ =>
    match i, hc with
    | 0, rfl => exact .storeBase nofun (expr_type_eq_ok_iff.2 hk)
    | 1, rfl => exact .storeKey
    | 2, rfl => exact .updateValue (expr_type_eq_ok_iff.2 hk) (expr_type_eq_ok_iff.2 hd)

/-- **The checker goes to all parts of a well-typed node**, unless they are idle. -/
theorem Calls.total {n c : Node α} {Γ : Scope Ty} {i : Nat} (ht : n.Typed Γ.frames)
    (hidle : n.idle i = false) (hc : n.children[i]? = some c) : ∃ Γ', Calls n Γ i c Γ' := by
  match n, ht with
  | .program p, _ =>
    match i, hc with
    | 0, rfl => exact ⟨_, .program⟩
  | .seq (.empty a), _ => cases hc
  | .seq (.cons a s more), ⟨_, .cons hs _⟩ =>
    match i, hc with
    | 0, rfl => exact ⟨_, .first⟩
    | 1, rfl => exact ⟨_, .rest (stmt_typed_iff.1 hs).1⟩
  | .stmt (.var a x e), _ =>
    match i, hc with
    | 0, _ => cases hidle
    | 1, rfl => exact ⟨_, .var⟩
  | .stmt (.assign a x e), ⟨_, .assign hx _⟩ =>
    match i, hc with
    | 0, _ => cases hidle
    | 1, rfl => exact ⟨_, .assign (lookup_eq_ok_iff.2 hx)⟩
  | .stmt (.print a e), _ =>
    match i, hc with
    | 0, rfl => exact ⟨_, .print⟩
  | .stmt (.ifThen a cond b), ⟨_, .ifThen hcond _⟩ =>
    match i, hc with
    | 0, rfl => exact ⟨_, .ifThenCond⟩
    | 1, rfl => exact ⟨_, .ifThenYes (expr_type_eq_ok_iff.2 hcond)⟩
  | .stmt (.ifElse a cond b b'), ⟨_, .ifElse hcond hb _⟩ =>
    match i, hc with
    | 0, rfl => exact ⟨_, .ifElseCond⟩
    | 1, rfl => exact ⟨_, .ifElseYes (expr_type_eq_ok_iff.2 hcond)⟩
    | 2, rfl => exact ⟨_, .ifElseNo (expr_type_eq_ok_iff.2 hcond) (block_typed_iff.1 hb)⟩
  | .stmt (.forEach a x d b), ⟨_, .forEach hd _⟩ =>
    match i, hc with
    | 0, _ => cases hidle
    | 1, rfl => exact ⟨_, .forEachDict⟩
    | 2, rfl =>
      exact ⟨_, .forEachBody (expr_type_eq_ok_iff.2 hd) (declare_result_eq_ok_iff.2 rfl)⟩
  | .stmt (.block b), _ =>
    match i, hc with
    | 0, rfl => exact ⟨_, .block⟩
  | .expr e, ⟨t, he⟩ =>
    obtain ⟨e', rfl⟩ := Node.expr_of_child hc
    exact ⟨_, .operand (.total he hidle hc)⟩

/-- The checker goes to every address in a well-typed node on whose way nothing is idle. -/
theorem reaches {n n' : Node α} {Γ : Scope Ty} {path : List Nat} (ht : n.Typed Γ.frames)
    (h : n.live? path = some n') : ∃ Γ', Along Calls n Γ path n' Γ' := by
  induction path generalizing n Γ with
  | nil =>
    cases h
    exact ⟨Γ, .here⟩
  | cons i path ih =>
    rw [Node.live?] at h
    cases hidle : n.idle i with
    | true =>
      rw [hidle] at h
      cases h
    | false =>
      rw [hidle, if_neg Bool.false_ne_true] at h
      obtain ⟨c, hc, hpath⟩ := Option.bind_eq_some_iff.1 h
      obtain ⟨Γ₁, hcall⟩ := Calls.total ht hidle hc
      obtain ⟨Γ', halong⟩ := ih (hcall.typed ht) hpath
      exact ⟨Γ', .down hcall halong⟩

/-! ## The checked tree -/

/-- A node with what checking it in `Γ` records. -/
def checked (Γ : Scope Ty) : Node α → Node (Note α)
  | .program p => .program p.check.2
  | .seq s => .seq (seq Γ s).tree
  | .stmt s => .stmt (stmt Γ s).tree
  | .expr e => .expr (expr Γ e).tree

@[simp] theorem Typed.expect_tree (r : Typed α) (t : Ty) : (r.expect t).tree = r.tree := rfl

/-- The type of an expression is recorded at it. -/
theorem expr_tree_ann (Γ : Scope Ty) (e : Expr α) :
    (expr Γ e).tree.ann = ⟨e.ann, (expr Γ e).type.toOption⟩ := by
  cases e with
  | unary a op x => rw [expr]; unfold unary; split <;> rfl
  | binary a op x y => rw [expr]; unfold binary; split <;> rfl
  | store a op d k v => cases op <;> rfl
  | _ => rfl

theorem map_ann_clear (e : Expr (Note α)) : (e.map Note.clear).map Note.ann = e.map Note.ann := by
  rw [Expr.map_map]
  rfl

@[simp] theorem Typed.after_tree_map_ann (e r : Typed α) :
    (e.after r).tree.map Note.ann = e.tree.map Note.ann := by
  unfold Typed.after
  cases r.type with
  | ok t => rfl
  | error f => exact map_ann_clear e.tree

/-- The checked tree of an expression is the expression with notes. -/
theorem expr_tree_map_ann (Γ : Scope Ty) (e : Expr α) : (expr Γ e).tree.map Note.ann = e := by
  induction e with
  | name | int | bool => rfl
  | pair a x y ihx ihy => simp [expr, node, Expr.map, ihx, ihy]
  | unary a op x ih =>
    rw [expr]
    unfold unary
    split <;> simp [node, Expr.map, map_ann_clear, ih]
  | binary a op x y ihx ihy =>
    rw [expr]
    unfold binary
    split <;> simp [uniform, node, Expr.map, map_ann_clear, ihx, ihy]
  | entry a k v ihk ihv => simp [expr, entry, node, Expr.map, ihk, ihv]
  | select a op d k ihd ihk => simp [expr, select, based, node, Expr.map, ihd, ihk]
  | store a op d k v ihd ihk ihv =>
    cases op <;> simp [expr, store, entry, based, node, Expr.map, map_ann_clear, ihd, ihk, ihv]

theorem expect_type_ok {r : Typed α} {t : Ty} (h : r.type = .ok t) : (r.expect t).type = .ok t :=
  Typed.expect_type_eq_ok_iff.2 ⟨h, rfl⟩

theorem Operand.checked {Γ : Scope Ty} {e e' : Expr α} {i : Nat} (h : Operand Γ e i e') :
    (checked Γ (.expr e)).children[i]? = some (checked Γ (.expr e')) := by
  cases h with
  | pairLeft | entryKey | selectKey => rfl
  | pairRight hx =>
    simp only [Check.checked, expr, node, Typed.after_eq_self hx]
    rfl
  | unary hop =>
    simp only [Token.unaryOps, List.mem_cons, List.not_mem_nil, or_false] at hop
    rcases hop with rfl | rfl | rfl | rfl <;> rfl
  | binaryLeft hop =>
    simp only [Token.binaryOps, List.mem_cons, List.not_mem_nil, or_false] at hop
    rcases hop with rfl | rfl | rfl | rfl <;> rfl
  | binaryRight hop hx hleft =>
    simp only [Token.binaryOps, List.mem_cons, List.not_mem_nil, or_false] at hop
    rcases hop with rfl | rfl | rfl | rfl
    · cases hleft _ rfl
      simp only [Check.checked, expr, binary, uniform, Typed.after_eq_self (expect_type_ok hx)]
      rfl
    · cases hleft _ rfl
      simp only [Check.checked, expr, binary, uniform, Typed.after_eq_self (expect_type_ok hx)]
      rfl
    · cases hleft _ rfl
      simp only [Check.checked, expr, binary, uniform, Typed.after_eq_self (expect_type_ok hx)]
      rfl
    · simp only [Check.checked, expr, binary, Typed.after_eq_self hx]
      rfl
  | entryValue hk =>
    simp only [Check.checked, expr, entry, Ty.key, Typed.after_eq_self (expect_type_ok hk)]
    rfl
  | selectBase hk =>
    simp only [Check.checked, expr, select, based, Ty.key, Typed.after_eq_self (expect_type_ok hk)]
    rfl
  | @storeKey _ op => cases op <;> rfl
  | @storeBase _ op _ _ _ hop hk =>
    cases op with
    | create => exact absurd rfl hop
    | _ =>
      simp only [Check.checked, expr, store, based, Ty.key,
        Typed.after_eq_self (expect_type_ok hk)]
      rfl
  | createValue hk =>
    simp only [Check.checked, expr, store, entry, Ty.key,
      Typed.after_eq_self (expect_type_ok hk)]
    rfl
  | updateValue hk hd =>
    have helem := based_elem_eq_ok_iff.2 ⟨hk, hd⟩
    simp only [Check.checked, expr, store]
    rw [Typed.after_eq_self helem]
    rfl

/-- **What is recorded at a child is what the checker finds when it goes there.** -/
theorem Calls.checked {n n' : Node α} {Γ Γ' : Scope Ty} {i : Nat} (h : Calls n Γ i n' Γ') :
    (checked Γ n).children[i]? = some (checked Γ' n') := by
  cases h with
  | program => rfl
  | first =>
    simp only [Check.checked, seq]
    split <;> rfl
  | rest hs =>
    simp only [Check.checked, seq, hs]
    rfl
  | var =>
    simp only [Check.checked, stmt]
    split <;> rfl
  | assign hx =>
    simp only [Check.checked, stmt, hx]
    rfl
  | print =>
    simp only [Check.checked, stmt]
    rfl
  | ifThenCond =>
    simp only [Check.checked, stmt]
    split <;> rfl
  | ifThenYes hc =>
    simp only [Check.checked, stmt, expect_type_ok hc]
    rfl
  | ifElseCond =>
    simp only [Check.checked, stmt]
    split
    · rfl
    · split <;> rfl
  | ifElseYes hc =>
    simp only [Check.checked, stmt, expect_type_ok hc]
    split <;> rfl
  | ifElseNo hc hb =>
    simp only [Check.checked, stmt, expect_type_ok hc, hb]
    rfl
  | forEachDict =>
    simp only [Check.checked, stmt]
    split
    · rfl
    · split <;> rfl
  | @forEachBody a x d b Γ t hd hx =>
    have helem : (do needDict (expr Γ d).tree.ann.ann (← (expr Γ d).type)) = .ok t :=
      Except.bind_eq_ok_iff.2 ⟨_, hd, rfl⟩
    simp only [Check.checked, stmt, helem, hx]
    rfl
  | @block b =>
    cases b
    simp only [Check.checked, stmt]
    rfl
  | operand h => exact h.checked

/-- From a well-typed node the checker reaches well-typed nodes only, and what it
finds there stands in the checked tree at the same address. -/
theorem visited {n n' : Node α} {Γ Γ' : Scope Ty} {path : List Nat} (ht : n.Typed Γ.frames)
    (h : Along Calls n Γ path n' Γ') :
    n'.Typed Γ'.frames ∧ (checked Γ n).at? path = some (checked Γ' n') := by
  induction h with
  | here => exact ⟨ht, rfl⟩
  | down hc _ ih =>
    obtain ⟨ht', hat⟩ := ih (hc.typed ht)
    exact ⟨ht', by rw [Node.at?_cons hc.checked, hat]⟩

end Check

namespace Program

theorem check_eq_ok_iff {p : Program α} : p.check.1 = .ok () ↔ p.WellTyped := by
  constructor
  · intro h
    exact ⟨_, Check.seq_typed_iff.2 ⟨h, rfl⟩⟩
  · rintro ⟨Δ, h⟩
    exact (Check.seq_typed_iff.1 (show Seq.Typed (Scope.frames .empty) p.body Δ from h)).1

/-- **The checker decides the typing rules.**  It accepts a program if and only if
the rules apply to it; and in an accepted program the type that it records at an
expression is the one type that the rules give the expression in the frames which
the checker has there. -/
theorem check_decides_typing (p : Program α) :
    (p.check.1 = .ok () ↔ p.WellTyped) ∧
      (p.check.1 = .ok () → ∀ path e, (Node.program p).live? path = some (.expr e) →
        ∃ Γ e' t, Along Check.Calls (.program p) .empty path (.expr e) Γ ∧
          (Node.program p.check.2).at? path = some (.expr e') ∧ e'.map Note.ann = e ∧
          e'.ann.type = some t ∧ ∀ t', HasType Γ.frames e t' ↔ t' = t) := by
  refine ⟨check_eq_ok_iff, fun hp path e hlive => ?_⟩
  have htyped : (Node.program p).Typed (Scope.frames .empty) := check_eq_ok_iff.1 hp
  obtain ⟨Γ, hΓ⟩ := Check.reaches htyped hlive
  obtain ⟨⟨t, ht⟩, hat⟩ := Check.visited htyped hΓ
  have htype := Check.expr_type_eq_ok_iff.2 ht
  refine ⟨Γ, _, t, hΓ, hat, Check.expr_tree_map_ann Γ e, ?_, fun t' => ?_⟩
  · rw [Check.expr_tree_ann, htype]
    rfl
  · constructor
    · intro ht'
      exact ht'.unique (List.cons_ne_nil _ _) ht
    · rintro rfl
      exact ht

end Program

end PairDict
