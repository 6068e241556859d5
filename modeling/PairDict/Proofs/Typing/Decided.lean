import PairDict.Proofs.Typing.Rules
import PairDict.Typing.Check

/-! # The checker decides the typing rules

Each part of the checker gets one lemma that says when it succeeds: the lemmas
about `Typed` and its operations first, then one for each kind of expression, and
from them, by induction on the tree, that **the checker succeeds exactly where the
rules apply** (`expr_type_eq_ok_iff`, `stmt_typed_iff`).

The checker hands a scope on after every statement.  The same induction shows that
after a success this scope holds the frames which the rules hand on, so the rules
are deterministic: an expression has at most one type (`HasType.unique`) and a
statement leads to one stack of frames.
-/
namespace PairDict

variable {α : Type}

theorem Except.bind_eq_ok_iff {ε β γ : Type} {x : Except ε β} {f : β → Except ε γ} {c : γ} :
    (x >>= f) = .ok c ↔ ∃ b, x = .ok b ∧ f b = .ok c := by
  cases x <;> simp [bind, Except.bind]

@[simp] theorem Except.pure_eq_ok_iff {ε β : Type} {b c : β} :
    (pure b : Except ε β) = .ok c ↔ b = c := by
  simp [pure, Except.pure]

@[simp] theorem Except.throw_ne_ok {ε β : Type} {e : ε} {b : β} :
    (throw e : Except ε β) ≠ .ok b := nofun

/-! ## Names -/

namespace Scope

theorem find?_eq_some_iff {Γ : List (Frame Ty)} {x : String} {t : Ty} :
    find? x Γ = some t ↔ Binds Γ x t := by
  induction Γ with
  | nil =>
    constructor
    · intro h; simp [find?] at h
    · intro h; cases h
  | cons f Γ ih =>
    cases hf : f.get? x with
    | some u =>
      -- the innermost frame that binds the name is this one
      rw [show find? x (f :: Γ) = some u from by simp [find?, hf]]
      constructor
      · intro h; cases h; exact .here hf
      · intro h
        cases h with
        | here h => rw [← h, hf]
        | outer h _ => rw [hf] at h; cases h
    | none =>
      rw [show find? x (f :: Γ) = find? x Γ from by simp [find?, hf], ih]
      constructor
      · exact .outer hf
      · intro h
        cases h with
        | here h => rw [hf] at h; cases h
        | outer _ h => exact h

theorem lookup_eq_ok_iff {Γ : Scope Ty} {x : String} {t : Ty} :
    Γ.lookup x = .ok t ↔ Binds Γ.frames x t := by
  rw [← find?_eq_some_iff, lookup]
  cases find? x Γ.frames <;> simp

theorem declare_eq_ok_iff {β : Type} {s s' : Scope β} {x : String} {v : β} :
    s.declare x v = .ok s' ↔ s.inner.get? x = none ∧ s' = ⟨(x, v) :: s.inner, s.outer⟩ := by
  unfold declare
  cases s.inner.get? x <;> simp [eq_comm]

@[simp] theorem frames_enter {β : Type} (s : Scope β) : s.enter.frames = [] :: s.frames := rfl

end Scope

namespace Check

/-! ## Operations on what was checked -/

@[simp] theorem node_type (a : α) (type : Except (TypeError α) Ty)
    (build : Note α → Expr (Note α)) : (node a type build).type = type := rfl

theorem Typed.expect_type_eq_ok_iff {r : Typed α} {want t : Ty} :
    (r.expect want).type = .ok t ↔ r.type = .ok t ∧ t = want := by
  simp only [expect, Except.bind_eq_ok_iff, Ty.identical_iff]
  constructor
  · rintro ⟨s, hs, h⟩
    split at h
    · cases h; exact ⟨hs, ‹_›⟩
    · cases h
  · rintro ⟨hr, rfl⟩
    exact ⟨t, hr, if_pos rfl⟩

theorem Typed.after_type_eq_ok_iff {e r : Typed α} {t : Ty} :
    (e.after r).type = .ok t ↔ (∃ s, r.type = .ok s) ∧ e.type = .ok t := by
  unfold after
  cases h : r.type <;> simp

/-- What comes after a success is left as it is. -/
theorem Typed.after_eq_self {e r : Typed α} {s : Ty} (h : r.type = .ok s) : e.after r = e := by
  rw [after, h]

theorem lookup_eq_ok_iff {Γ : Scope Ty} {a : α} {x : String} {t : Ty} :
    lookup Γ a x = .ok t ↔ Binds Γ.frames x t := by
  rw [← Scope.lookup_eq_ok_iff, lookup]
  cases Γ.lookup x <;> simp

theorem needPair_eq_ok_iff {a : α} {t : Ty} {p : Ty × Ty} :
    needPair a t = .ok p ↔ t = .pair p.1 p.2 := by
  cases t <;> simp [needPair, Prod.ext_iff]

theorem needDict_eq_ok_iff {a : α} {t u : Ty} : needDict a t = .ok u ↔ t = .dict u := by
  cases t <;> simp [needDict]

/-! ## Expressions

One lemma for each kind of operation says what it asks of its operands; the rules
say the same of the types that these operands have. -/

theorem unary_type_eq_ok_iff {a : α} {op : Token} {x : Typed α} {t : Ty} :
    (unary a op x).type = .ok t ↔
      (op = .symbol .minus ∧ x.type = .ok .int ∧ t = .int) ∨
      (op = .symbol .bang ∧ x.type = .ok .bool ∧ t = .bool) ∨
      (op = .keyword .fst ∧ ∃ u, x.type = .ok (.pair t u)) ∨
      (op = .keyword .snd ∧ ∃ s, x.type = .ok (.pair s t)) := by
  unfold unary
  split
  · rw [node_type, Typed.expect_type_eq_ok_iff]
    constructor
    · rintro ⟨h, rfl⟩; exact .inl ⟨rfl, h, rfl⟩
    · rintro (⟨-, h, rfl⟩ | ⟨h, -⟩ | ⟨h, -⟩ | ⟨h, -⟩)
      · exact ⟨h, rfl⟩
      all_goals cases h
  · rw [node_type, Typed.expect_type_eq_ok_iff]
    constructor
    · rintro ⟨h, rfl⟩; exact .inr (.inl ⟨rfl, h, rfl⟩)
    · rintro (⟨h, -⟩ | ⟨-, h, rfl⟩ | ⟨h, -⟩ | ⟨h, -⟩)
      · cases h
      · exact ⟨h, rfl⟩
      all_goals cases h
  · simp only [node_type, Except.bind_eq_ok_iff, needPair_eq_ok_iff, Except.pure_eq_ok_iff]
    constructor
    · rintro ⟨_, h, ⟨_, u⟩, rfl, rfl⟩; exact .inr (.inr (.inl ⟨trivial, u, h⟩))
    · rintro (⟨h, -⟩ | ⟨h, -⟩ | ⟨-, u, h⟩ | ⟨h, -⟩)
      · cases h
      · cases h
      · exact ⟨_, h, (t, u), rfl, rfl⟩
      · cases h
  · simp only [node_type, Except.bind_eq_ok_iff, needPair_eq_ok_iff, Except.pure_eq_ok_iff]
    constructor
    · rintro ⟨_, h, ⟨s, _⟩, rfl, rfl⟩; exact .inr (.inr (.inr ⟨trivial, s, h⟩))
    · rintro (⟨h, -⟩ | ⟨h, -⟩ | ⟨h, -⟩ | ⟨-, s, h⟩)
      · cases h
      · cases h
      · cases h
      · exact ⟨_, h, (s, t), rfl, rfl⟩
  · next hminus hbang hfst hsnd =>
    constructor
    · intro h; exact absurd h Except.throw_ne_ok
    · rintro (⟨h, -⟩ | ⟨h, -⟩ | ⟨h, -⟩ | ⟨h, -⟩)
      · exact (hminus h).elim
      · exact (hbang h).elim
      · exact (hfst h).elim
      · exact (hsnd h).elim

theorem uniform_type_eq_ok_iff {a : α} {op : Token} {want : Ty} {x y : Typed α} {t : Ty} :
    (uniform a op want x y).type = .ok t ↔
      x.type = .ok want ∧ y.type = .ok want ∧ t = want := by
  simp only [uniform, node_type, Typed.after_type_eq_ok_iff, Typed.expect_type_eq_ok_iff]
  constructor
  · rintro ⟨⟨s, hx, rfl⟩, hy, rfl⟩
    exact ⟨hx, hy, rfl⟩
  · rintro ⟨hx, hy, rfl⟩
    exact ⟨⟨t, hx, rfl⟩, hy, rfl⟩

theorem binary_type_eq_ok_iff {a : α} {op : Token} {x y : Typed α} {t : Ty} :
    (binary a op x y).type = .ok t ↔
      ((op = .symbol .plus ∨ op = .symbol .star) ∧ x.type = .ok .int ∧ y.type = .ok .int ∧
        t = .int) ∨
      (op = .symbol .andAnd ∧ x.type = .ok .bool ∧ y.type = .ok .bool ∧ t = .bool) ∨
      (op = .symbol .eql ∧ (∃ s, x.type = .ok s ∧ y.type = .ok s) ∧ t = .bool) := by
  unfold binary
  split
  · simp [uniform_type_eq_ok_iff]
  · simp [uniform_type_eq_ok_iff]
  · simp [uniform_type_eq_ok_iff]
  · simp only [node_type, Except.bind_eq_ok_iff, Except.pure_eq_ok_iff,
      Typed.expect_type_eq_ok_iff, Typed.after_type_eq_ok_iff]
    constructor
    · rintro ⟨_, hx, s, ⟨⟨-, hy⟩, rfl⟩, rfl⟩
      exact .inr (.inr ⟨trivial, ⟨s, hx, hy⟩, rfl⟩)
    · rintro (⟨h | h, -⟩ | ⟨h, -⟩ | ⟨-, ⟨s, hx, hy⟩, rfl⟩)
      · cases h
      · cases h
      · cases h
      · exact ⟨s, hx, s, ⟨⟨⟨s, hx⟩, hy⟩, rfl⟩, rfl⟩
  · next hplus hstar hand heql =>
    constructor
    · intro h; exact absurd h Except.throw_ne_ok
    · rintro (⟨h | h, -⟩ | ⟨h, -⟩ | ⟨h, -⟩)
      · exact (hplus h).elim
      · exact (hstar h).elim
      · exact (hand h).elim
      · exact (heql h).elim

theorem entry_type_eq_ok_iff {a : α} {key value : Typed α}
    {build : Note α → Expr (Note α) → Expr (Note α) → Expr (Note α)} {t : Ty} :
    (entry a key value build).type = .ok t ↔
      key.type = .ok .int ∧ ∃ u, value.type = .ok u ∧ t = .dict u := by
  simp only [entry, node_type, Except.bind_eq_ok_iff, Except.pure_eq_ok_iff,
    Typed.after_type_eq_ok_iff, Typed.expect_type_eq_ok_iff, Ty.key]
  constructor
  · rintro ⟨u, ⟨⟨s, hk, rfl⟩, hv⟩, rfl⟩
    exact ⟨hk, u, hv, rfl⟩
  · rintro ⟨hk, u, hv, rfl⟩
    exact ⟨u, ⟨⟨_, hk, rfl⟩, hv⟩, rfl⟩

theorem based_elem_eq_ok_iff {base key : Typed α} {u : Ty} :
    (based base key).1 = .ok u ↔ key.type = .ok .int ∧ base.type = .ok (.dict u) := by
  simp only [based, Except.bind_eq_ok_iff, Typed.after_type_eq_ok_iff,
    Typed.expect_type_eq_ok_iff, needDict_eq_ok_iff, Ty.key]
  constructor
  · rintro ⟨s, ⟨⟨s', hk, rfl⟩, hb⟩, rfl⟩
    exact ⟨hk, hb⟩
  · rintro ⟨hk, hb⟩
    exact ⟨_, ⟨⟨_, hk, rfl⟩, hb⟩, rfl⟩

theorem select_type_eq_ok_iff {a : α} {op : SelectOp} {base key : Typed α} {t : Ty} :
    (select a op base key).type = .ok t ↔
      key.type = .ok .int ∧ ∃ u, base.type = .ok (.dict u) ∧
        (op = .get ∧ t = u ∨ op = .delete ∧ t = .dict u) := by
  cases op with
  | get => simp [select, based_elem_eq_ok_iff]
  | delete =>
    simp only [select, node_type, Except.bind_eq_ok_iff, based_elem_eq_ok_iff,
      Except.pure_eq_ok_iff]
    simp [eq_comm, and_assoc]
  | other n =>
    simp [select, Except.bind_eq_ok_iff]

theorem store_type_eq_ok_iff {a : α} {op : DictOp} {base key value : Typed α} {t : Ty} :
    (store a op base key value).type = .ok t ↔
      key.type = .ok .int ∧
        ((op = .create ∧ ∃ u, value.type = .ok u ∧ t = .dict u) ∨
          ∃ u, base.type = .ok (.dict u) ∧
            (op = .get ∧ t = u ∨ op = .delete ∧ t = .dict u ∨
              op = .update ∧ value.type = .ok u ∧ t = .dict u)) := by
  cases op with
  | create => simp [store, entry_type_eq_ok_iff]
  | get => simp [store, based_elem_eq_ok_iff]
  | delete =>
    simp only [store, node_type, Except.bind_eq_ok_iff, based_elem_eq_ok_iff,
      Except.pure_eq_ok_iff]
    simp [eq_comm, and_assoc]
  | other n =>
    simp [store, Except.bind_eq_ok_iff]
  | update =>
    simp only [store, node_type, Except.bind_eq_ok_iff, Except.pure_eq_ok_iff,
      based_elem_eq_ok_iff, Typed.expect_type_eq_ok_iff, Typed.after_type_eq_ok_iff]
    constructor
    · rintro ⟨u, ⟨hk, hb⟩, s, ⟨⟨-, hv⟩, rfl⟩, rfl⟩
      exact ⟨hk, .inr ⟨_, hb, .inr (.inr ⟨trivial, hv, rfl⟩)⟩⟩
    · rintro ⟨hk, ⟨h, -⟩ | ⟨u, hb, ⟨h, -⟩ | ⟨h, -⟩ | ⟨-, hv, rfl⟩⟩⟩
      · cases h
      · cases h
      · cases h
      · exact ⟨u, ⟨hk, hb⟩, u, ⟨⟨⟨u, hk, hb⟩, hv⟩, rfl⟩, rfl⟩

/-- **The checker gives an expression the type that the rules give it.** -/
theorem expr_type_eq_ok_iff {Γ : Scope Ty} {e : Expr α} {t : Ty} :
    (expr Γ e).type = .ok t ↔ HasType Γ.frames e t := by
  induction e generalizing t with
  | name a x =>
    rw [expr, node_type, lookup_eq_ok_iff]
    exact ⟨.name, fun | .name h => h⟩
  | int a n =>
    rw [expr, node_type]
    exact ⟨fun h => by cases h; exact .int, fun | .int => rfl⟩
  | bool a b =>
    rw [expr, node_type]
    exact ⟨fun h => by cases h; exact .bool, fun | .bool => rfl⟩
  | pair a x y ihx ihy =>
    simp only [expr, node_type, Except.bind_eq_ok_iff, Except.pure_eq_ok_iff,
      Typed.after_type_eq_ok_iff, ihx, ihy]
    constructor
    · rintro ⟨s, hx, u, ⟨-, hy⟩, rfl⟩
      exact .pair hx hy
    · rintro (_ | _)
      rename_i s u hx hy
      exact ⟨s, hx, u, ⟨⟨s, hx⟩, hy⟩, rfl⟩
  | unary a op x ih =>
    simp only [expr, unary_type_eq_ok_iff, ih]
    constructor
    · rintro (⟨rfl, h, rfl⟩ | ⟨rfl, h, rfl⟩ | ⟨rfl, _, h⟩ | ⟨rfl, _, h⟩)
      · exact .neg h
      · exact .not h
      · exact .fst h
      · exact .snd h
    · intro h
      cases h with
      | neg h => exact .inl ⟨rfl, h, rfl⟩
      | not h => exact .inr (.inl ⟨rfl, h, rfl⟩)
      | fst h => exact .inr (.inr (.inl ⟨rfl, _, h⟩))
      | snd h => exact .inr (.inr (.inr ⟨rfl, _, h⟩))
  | binary a op x y ihx ihy =>
    simp only [expr, binary_type_eq_ok_iff, ihx, ihy]
    constructor
    · rintro (⟨rfl | rfl, hx, hy, rfl⟩ | ⟨rfl, hx, hy, rfl⟩ | ⟨rfl, ⟨_, hx, hy⟩, rfl⟩)
      · exact .add hx hy
      · exact .mul hx hy
      · exact .and hx hy
      · exact .eql hx hy
    · intro h
      cases h with
      | add hx hy => exact .inl ⟨.inl rfl, hx, hy, rfl⟩
      | mul hx hy => exact .inl ⟨.inr rfl, hx, hy, rfl⟩
      | and hx hy => exact .inr (.inl ⟨rfl, hx, hy, rfl⟩)
      | eql hx hy => exact .inr (.inr ⟨rfl, ⟨_, hx, hy⟩, rfl⟩)
  | entry a k v ihk ihv =>
    simp only [expr, entry_type_eq_ok_iff, ihk, ihv]
    constructor
    · rintro ⟨hk, _, hv, rfl⟩
      exact .entry hk hv
    · intro h
      cases h with
      | entry hk hv => exact ⟨hk, _, hv, rfl⟩
  | select a op d k ihd ihk =>
    simp only [expr, select_type_eq_ok_iff, ihd, ihk]
    constructor
    · rintro ⟨hk, _, hd, ⟨rfl, rfl⟩ | ⟨rfl, rfl⟩⟩
      · exact .get hd hk
      · exact .delete hd hk
    · intro h
      cases h with
      | get hd hk => exact ⟨hk, _, hd, .inl ⟨rfl, rfl⟩⟩
      | delete hd hk => exact ⟨hk, _, hd, .inr ⟨rfl, rfl⟩⟩
  | store a op d k v ihd ihk ihv =>
    simp only [expr, store_type_eq_ok_iff, ihd, ihk, ihv]
    constructor
    · rintro ⟨hk, ⟨rfl, _, hv, rfl⟩ | ⟨_, hd, ⟨rfl, rfl⟩ | ⟨rfl, rfl⟩ | ⟨rfl, hv, rfl⟩⟩⟩
      · exact .storeCreate hk hv
      · exact .storeGet hd hk
      · exact .storeDelete hd hk
      · exact .storeUpdate hd hk hv
    · intro h
      cases h with
      | storeCreate hk hv => exact ⟨hk, .inl ⟨rfl, _, hv, rfl⟩⟩
      | storeGet hd hk => exact ⟨hk, .inr ⟨_, hd, .inl ⟨rfl, rfl⟩⟩⟩
      | storeDelete hd hk => exact ⟨hk, .inr ⟨_, hd, .inr (.inl ⟨rfl, rfl⟩)⟩⟩
      | storeUpdate hd hk hv => exact ⟨hk, .inr ⟨_, hd, .inr (.inr ⟨rfl, hv, rfl⟩)⟩⟩

/-- An expression is checked to a type or not at all, and the type that it is
required to have is then that one. -/
theorem expect_expr_type_eq_ok_iff {Γ : Scope Ty} {e : Expr α} {want t : Ty} :
    ((expr Γ e).expect want).type = .ok t ↔ HasType Γ.frames e want ∧ t = want := by
  rw [Typed.expect_type_eq_ok_iff, expr_type_eq_ok_iff]
  constructor
  · rintro ⟨h, rfl⟩; exact ⟨h, rfl⟩
  · rintro ⟨h, rfl⟩; exact ⟨h, rfl⟩

/-! ## Statements -/

theorem declare_result_eq_ok_iff {Γ : Scope Ty} {x : Ident α} {t : Ty} :
    (declare Γ x t).result = .ok () ↔ Γ.inner.get? x.name = none := by
  unfold declare
  cases h : Γ.declare x.name t with
  | ok Γ' => simp [(Scope.declare_eq_ok_iff.1 h).1]
  | error e =>
    simp only [reduceCtorEq, false_iff]
    intro hn
    rw [Scope.declare_eq_ok_iff.2 ⟨hn, rfl⟩] at h
    cases h

theorem declare_scope {Γ : Scope Ty} {x : Ident α} {t : Ty} (h : Γ.inner.get? x.name = none) :
    (declare Γ x t).scope = ⟨(x.name, t) :: Γ.inner, Γ.outer⟩ := by
  rw [declare, Scope.declare_eq_ok_iff.2 ⟨h, rfl⟩]

/-- A step that only looks at types succeeds as soon as they are there. -/
theorem discard_eq_ok_iff {r : Except (TypeError α) Ty} :
    (do let _ ← r : Except (TypeError α) Unit) = .ok () ↔ ∃ t, r = .ok t := by
  cases r <;> simp [Functor.map, Except.map]

theorem dict_of_loop_eq_ok_iff {Γ : Scope Ty} {d : Expr α} {a : α} {t : Ty} :
    (do needDict a (← (expr Γ d).type)) = .ok t ↔ HasType Γ.frames d (.dict t) := by
  simp only [Except.bind_eq_ok_iff, needDict_eq_ok_iff, expr_type_eq_ok_iff]
  constructor
  · rintro ⟨_, h, rfl⟩; exact h
  · intro h; exact ⟨_, h, rfl⟩

theorem declare_scope_outer (Γ : Scope Ty) (x : Ident α) (t : Ty) :
    (declare Γ x t).scope.outer = Γ.outer := by
  unfold declare
  cases h : Γ.declare x.name t with
  | ok Γ' => rw [(Scope.declare_eq_ok_iff.1 h).2]
  | error e => rfl

/-- A scope whose frames around the innermost one are those of `Γ` inside a new
frame gives `Γ` back when that frame is closed. -/
theorem leave_eq_of_outer {Γ Γ' : Scope Ty} (h : Γ'.outer = Γ.enter.outer) : Γ'.leave = Γ := by
  obtain ⟨f, fs⟩ := Γ'
  cases h
  rfl

mutual

/-- Checking a statement keeps the frames around the innermost one, however it
ends. -/
theorem stmt_scope_outer (Γ : Scope Ty) : ∀ s : Stmt α, (stmt Γ s).scope.outer = Γ.outer
  | .var a x e => by
    rw [stmt]
    cases (expr Γ e).type with
    | error f => rfl
    | ok t => exact declare_scope_outer Γ x t
  | .assign a x e => by
    rw [stmt]
    cases lookup Γ x.ann x.name <;> rfl
  | .print a e => by rw [stmt]
  | .ifThen a c b => by
    rw [stmt]
    cases ((expr Γ c).expect .bool).type with
    | error f => rfl
    | ok t => exact congrArg Scope.outer (block_scope Γ b)
  | .ifElse a c b b' => by
    rw [stmt]
    cases ((expr Γ c).expect .bool).type with
    | error f => rfl
    | ok t =>
      simp only [block_scope Γ b]
      cases (block Γ b).result with
      | error f => rfl
      | ok u => exact congrArg Scope.outer (block_scope Γ b')
  | .forEach a x d b => by
    rw [stmt]
    -- whatever the dictionary is, the frame of the loop is closed again
    generalize (do needDict (expr Γ d).tree.ann.ann (← (expr Γ d).type)) = r
    cases r with
    | error f => rfl
    | ok t =>
      have hout := declare_scope_outer Γ.enter x (Ty.entry t)
      simp only [block_scope, leave_eq_of_outer hout]
      cases (declare Γ.enter x (Ty.entry t)).result <;> rfl
  | .block b => by
    rw [stmt]
    exact congrArg Scope.outer (block_scope Γ b)

/-- A block closes its frame, however it ends. -/
theorem block_scope (Γ : Scope Ty) : ∀ b : Block α, (block Γ b).scope = Γ
  | .mk a s close => by
    rw [block]
    exact leave_eq_of_outer (seq_scope_outer Γ.enter s)

theorem seq_scope_outer (Γ : Scope Ty) : ∀ s : Seq α, (seq Γ s).scope.outer = Γ.outer
  | .empty a => by rw [seq]
  | .cons a s rest => by
    have hs := stmt_scope_outer Γ s
    rw [seq]
    cases (stmt Γ s).result with
    | error f => exact hs
    | ok u => exact (seq_scope_outer _ rest).trans hs

end

mutual

/-- **A statement is well typed if checking it succeeds**, and the frames after it
are those that checking it leaves. -/
theorem stmt_typed_iff {Γ : Scope Ty} {Δ : List (Frame Ty)} :
    ∀ {s : Stmt α}, Stmt.Typed Γ.frames s Δ ↔
      (stmt Γ s).result = .ok () ∧ (stmt Γ s).scope.frames = Δ
  | .var a x e => by
    rw [stmt]
    cases he : (expr Γ e).type with
    | error f =>
      -- no rule gives a type to what the checker refuses
      simp only [reduceCtorEq, false_and, iff_false]
      intro h
      cases h with
      | var h _ => rw [expr_type_eq_ok_iff.2 h] at he; cases he
    | ok t =>
      simp only [declare_result_eq_ok_iff]
      constructor
      · intro h
        cases h with
        | var h hx =>
          rw [expr_type_eq_ok_iff.2 h] at he
          cases he
          exact ⟨hx, by rw [declare_scope hx]; rfl⟩
      · rintro ⟨hx, rfl⟩
        rw [declare_scope hx]
        exact .var (expr_type_eq_ok_iff.1 he) hx
  | .assign a x e => by
    rw [stmt]
    cases hx : lookup Γ x.ann x.name with
    | error f =>
      simp only [reduceCtorEq, false_and, iff_false]
      intro h
      cases h with
      | assign h _ => rw [lookup_eq_ok_iff.2 h] at hx; cases hx
    | ok t =>
      simp only [discard_eq_ok_iff, expect_expr_type_eq_ok_iff]
      constructor
      · intro h
        cases h with
        | assign h he =>
          rw [lookup_eq_ok_iff.2 h] at hx
          cases hx
          exact ⟨⟨_, he, rfl⟩, rfl⟩
      · rintro ⟨⟨_, he, rfl⟩, rfl⟩
        exact .assign (lookup_eq_ok_iff.1 hx) he
  | .print a e => by
    simp only [stmt, discard_eq_ok_iff, expr_type_eq_ok_iff]
    constructor
    · intro h
      cases h with
      | print h => exact ⟨⟨_, h⟩, rfl⟩
    · rintro ⟨⟨_, h⟩, rfl⟩
      exact .print h
  | .ifThen a c b => by
    rw [stmt]
    cases hc : ((expr Γ c).expect .bool).type with
    | error f =>
      simp only [reduceCtorEq, false_and, iff_false]
      intro h
      cases h with
      | ifThen h _ => rw [expect_expr_type_eq_ok_iff.2 ⟨h, rfl⟩] at hc; cases hc
    | ok t =>
      obtain ⟨hbool, rfl⟩ := expect_expr_type_eq_ok_iff.1 hc
      simp only [block_scope, ← block_typed_iff]
      constructor
      · intro h
        cases h with
        | ifThen _ hb => exact ⟨hb, rfl⟩
      · rintro ⟨hb, rfl⟩
        exact .ifThen hbool hb
  | .ifElse a c b b' => by
    rw [stmt]
    cases hc : ((expr Γ c).expect .bool).type with
    | error f =>
      simp only [reduceCtorEq, false_and, iff_false]
      intro h
      cases h with
      | ifElse h _ _ => rw [expect_expr_type_eq_ok_iff.2 ⟨h, rfl⟩] at hc; cases hc
    | ok t =>
      obtain ⟨hbool, rfl⟩ := expect_expr_type_eq_ok_iff.1 hc
      simp only [block_scope]
      cases hb : (block Γ b).result with
      | error f =>
        simp only [reduceCtorEq, false_and, iff_false]
        intro h
        cases h with
        | ifElse _ h _ => rw [block_typed_iff.1 h] at hb; cases hb
      | ok u =>
        simp only [← block_typed_iff]
        constructor
        · intro h
          cases h with
          | ifElse _ _ hb' => exact ⟨hb', rfl⟩
        · rintro ⟨hb', rfl⟩
          exact .ifElse hbool (block_typed_iff.2 hb) hb'
  | .forEach a x d b => by
    rw [stmt]
    cases hd : (do needDict (expr Γ d).tree.ann.ann (← (expr Γ d).type)) with
    | error f =>
      simp only [reduceCtorEq, false_and, iff_false]
      intro h
      cases h with
      | forEach h _ => rw [dict_of_loop_eq_ok_iff.2 h] at hd; cases hd
    | ok t =>
      -- the variable is the first name of its frame, so declaring it succeeds
      have hnew : Γ.enter.inner.get? x.name = none := rfl
      have hscope := declare_scope (t := Ty.entry t) hnew
      have hleave : (declare Γ.enter x (Ty.entry t)).scope.leave = Γ := by rw [hscope]; rfl
      simp only [declare_result_eq_ok_iff.2 hnew, block_scope, hleave, ← block_typed_iff]
      rw [hscope]
      constructor
      · intro h
        cases h with
        | forEach h hb =>
          rw [dict_of_loop_eq_ok_iff.2 h] at hd
          cases hd
          exact ⟨hb, rfl⟩
      · rintro ⟨hb, rfl⟩
        exact .forEach (dict_of_loop_eq_ok_iff.1 hd) hb
  | .block b => by
    simp only [stmt, block_scope, ← block_typed_iff]
    constructor
    · intro h
      cases h with
      | block hb => exact ⟨hb, rfl⟩
    · rintro ⟨hb, rfl⟩
      exact .block hb

theorem block_typed_iff {Γ : Scope Ty} :
    ∀ {b : Block α}, Block.Typed Γ.frames b ↔ (block Γ b).result = .ok ()
  | .mk a s close => by
    rw [block]
    constructor
    · intro h
      cases h with
      | mk h =>
        rw [← Scope.frames_enter] at h
        exact (seq_typed_iff.1 h).1
    · intro h
      exact .mk (seq_typed_iff.2 ⟨h, rfl⟩)

theorem seq_typed_iff {Γ : Scope Ty} {Δ : List (Frame Ty)} :
    ∀ {s : Seq α}, Seq.Typed Γ.frames s Δ ↔
      (seq Γ s).result = .ok () ∧ (seq Γ s).scope.frames = Δ
  | .empty a => by
    simp only [seq, true_and]
    constructor
    · intro h; cases h; rfl
    · rintro rfl; exact .empty
  | .cons a s rest => by
    rw [seq]
    cases hs : (stmt Γ s).result with
    | error f =>
      simp only [reduceCtorEq, false_and, iff_false]
      intro h
      cases h with
      | cons h _ => rw [(stmt_typed_iff.1 h).1] at hs; cases hs
    | ok u =>
      -- the checker is left with the frames in which the rules judge the other statements
      simp only [← seq_typed_iff]
      constructor
      · intro h
        cases h with
        | cons h hrest => rwa [← (stmt_typed_iff.1 h).2] at hrest
      · intro hrest
        exact .cons (stmt_typed_iff.2 ⟨hs, rfl⟩) hrest

end

end Check

/-- An expression has at most one type. -/
theorem HasType.unique {Γ : List (Frame Ty)} {e : Expr α} {t t' : Ty} (hne : Γ ≠ [])
    (h : HasType Γ e t) (h' : HasType Γ e t') : t = t' := by
  obtain ⟨f, fs, rfl⟩ := List.exists_cons_of_ne_nil hne
  have he := Check.expr_type_eq_ok_iff.2 (show HasType (Scope.frames ⟨f, fs⟩) e t from h)
  rw [Check.expr_type_eq_ok_iff.2 (show HasType (Scope.frames ⟨f, fs⟩) e t' from h')] at he
  cases he
  rfl

end PairDict
