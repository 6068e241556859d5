import PairDict.Proofs.Tree.Tour
import PairDict.Proofs.Typing.Noted
import PairDict.Proofs.Typing.Tabled

/-! # What is entered

The table of a checked tree, told by where the checker goes.  A node adds one entry at most:
an expression its type, and a statement the type of the name that it declares (`Node.entry`).
The rest of its table is that of its children, apart from the names that it binds or assigns
(`Node.mem_table_iff`).  A child is either checked or it has no entries at all
(`Check.calls_or_blank`), so that by induction on the tree

* a type is entered exactly for the expressions that the checker goes to and finds a type of
  (`Program.typeOf?_eq_some_iff`),
* and exactly for the names that are declared where it goes to (`Program.defOf?_eq_some_iff`).
-/
namespace PairDict

variable {α : Type}

theorem toOption_eq_some_iff {ε β : Type} {x : Except ε β} {b : β} :
    x.toOption = some b ↔ x = .ok b := by
  cases x with
  | ok c => exact Option.some_inj.trans ⟨congrArg Except.ok, Except.ok.inj⟩
  | error e => exact iff_of_false (by rintro ⟨⟩) (by rintro ⟨⟩)

/-- One of the two lists of a table. -/
structure Info.Part (part : Info → List (List Nat × Ty)) : Prop where
  empty : part .empty = []
  append (i j : Info) : part (i ++ j) = part i ++ part j

theorem Info.part_types : Part types := ⟨rfl, types_append⟩

theorem Info.part_defs : Part defs := ⟨rfl, defs_append⟩

namespace Node

/-- The table of the node at `path`. -/
def table (path : List Nat) : Node (Note α) → Info
  | .program p => p.body.table (path ++ [0])
  | .seq s => s.table path
  | .stmt s => s.table path
  | .expr e => e.table path

/-- What the node at `path` adds itself. -/
def entry (path : List Nat) : Node (Note α) → Info
  | .stmt (.var _ x _) | .stmt (.forEach _ x _ _) => x.ann.defEntry (path ++ [0])
  | .expr e => e.ann.typeEntry path
  | _ => .empty

theorem exists_child_cons {P : Nat → Node α → Prop} {c : Node α} {cs : List (Node α)} :
    (∃ i c', (c :: cs)[i]? = some c' ∧ P i c') ↔
      P 0 c ∨ ∃ i c', cs[i]? = some c' ∧ P (i + 1) c' := by
  constructor
  · rintro ⟨_ | i, c', hc, h⟩
    · cases hc
      exact .inl h
    · exact .inr ⟨i, c', hc, h⟩
  · rintro (h | ⟨i, c', hc, h⟩)
    · exact ⟨0, c, rfl, h⟩
    · exact ⟨i + 1, c', hc, h⟩

theorem not_exists_child_nil {P : Nat → Node α → Prop} :
    ¬ ∃ i c, ([] : List (Node α))[i]? = some c ∧ P i c := by
  rintro ⟨i, c, ⟨⟩, -⟩

/-- **A table holds the entry of its node and those below its children**, apart from names that
the node binds or assigns. -/
theorem mem_table_iff {part : Info → List (List Nat × Ty)} (hpart : Info.Part part)
    {n : Node (Note α)} {path : List Nat} {x : List Nat × Ty} :
    x ∈ part (n.table path) ↔ x ∈ part (n.entry path) ∨
      ∃ i c, n.children[i]? = some c ∧ n.target i = false ∧
        x ∈ part (c.table (path ++ [i])) := by
  have hempty : x ∉ part .empty := by
    rw [hpart.empty]
    exact List.not_mem_nil
  have happend : ∀ i j, x ∈ part (i ++ j) ↔ x ∈ part i ∨ x ∈ part j := by
    intro i j
    rw [hpart.append, List.mem_append]
  -- the tables of the children stand in the order in which they are checked
  cases n with
  | program p =>
    simp only [table, entry, children, exists_child_cons, not_exists_child_nil, target, hempty,
      true_and, or_false, false_or]
  | seq s =>
    cases s <;>
    simp only [table, entry, children, exists_child_cons, not_exists_child_nil, target, Seq.table,
      happend, hempty, true_and, or_false, false_or, or_comm, Nat.zero_add]
  | stmt s =>
    cases s with
    | block b =>
      cases b
      simp only [table, entry, children, exists_child_cons, not_exists_child_nil, target,
        Stmt.table, Block.table, Block.body, hempty, true_and, or_false, false_or]
    | _ =>
      simp only [table, entry, children, exists_child_cons, not_exists_child_nil, target,
        Stmt.table, happend, hempty, true_and, or_false, false_or, Bool.true_eq_false, false_and,
        Nat.zero_add, Nat.reduceAdd] <;>
      ac_nf
  | expr e =>
    cases e <;>
    simp only [table, entry, children, exists_child_cons, not_exists_child_nil, target,
      Expr.table, Expr.ann, happend, true_and, or_false, Nat.zero_add, Nat.reduceAdd] <;>
    ac_nf

theorem entry_types_stmt (s : Stmt (Note α)) (path : List Nat) :
    ((stmt s).entry path).types = [] := by
  cases s <;> rfl

/-- Only for a name that it declares a node adds an entry to the names. -/
theorem declares_of_mem_entry {n : Node (Note α)} {path : List Nat} {x : List Nat × Ty}
    (h : x ∈ (n.entry path).defs) : n.declares 0 = true := by
  cases n with
  | stmt s =>
    cases s with
    | var | forEach => rfl
    | _ => cases h
  | _ => cases h

end Node

theorem Note.mem_typeEntry_iff {path : List Nat} {n : Note α} {x : List Nat × Ty} :
    x ∈ (n.typeEntry path).types ↔ ∃ t, n.type = some t ∧ x = (path, t) := by
  rw [typeEntry, Option.mem_toList, Option.map_eq_some_iff]
  exact exists_congr fun t => and_congr_right fun _ => eq_comm

theorem Note.mem_defEntry_iff {path : List Nat} {n : Note α} {x : List Nat × Ty} :
    x ∈ (n.defEntry path).defs ↔ ∃ t, n.type = some t ∧ x = (path, t) :=
  mem_typeEntry_iff

namespace Check

open Node (table)

/-! ## What the checker does not come to -/

/-- The subtree has no entries. -/
def Blank (n : Node (Note α)) : Prop := ∀ path, n.table path = .empty

theorem blank_clear (e : Expr (Note α)) : Blank (.expr (e.map Note.clear)) :=
  Expr.table_clear e

/-- An expression that is not reached has no entries. -/
theorem blank_after {r : Typed α} {f : TypeError α} (h : r.type = .error f) (e : Typed α) :
    Blank (.expr (e.after r).tree) :=
  fun _ => Checker.Finds.table_after h e

/-- What comes after a required type is reached if the type is that one. -/
theorem expect_ok_or_blank (r : Typed α) (t : Ty) (e : Typed α) :
    r.type = .ok t ∨ Blank (.expr (e.after (r.expect t)).tree) := by
  cases hr : (r.expect t).type with
  | ok s =>
    obtain ⟨hok, rfl⟩ := Typed.expect_type_eq_ok_iff.1 hr
    exact .inl hok
  | error f => exact .inr (blank_after hr e)

/-- Of each child of a list something holds that depends on its number. -/
def Each (P : Nat → Node α → Prop) (cs : List (Node α)) : Prop :=
  ∀ i c, cs[i]? = some c → P i c

namespace Each

variable {P : Nat → Node α → Prop} {c : Node α} {cs : List (Node α)}

theorem nil : Each P [] := by rintro i c ⟨⟩

theorem cons (hc : P 0 c) (hcs : Each (fun i => P (i + 1)) cs) : Each P (c :: cs) := by
  rintro (_ | i) c' h
  · cases h
    exact hc
  · exact hcs i c' h

end Each

/-- What is found at the number of an operand is checked, or it has no entries. -/
def CheckedOrBlank (Γ : Scope Ty) (e : Expr α) (i : Nat) (c : Node (Note α)) : Prop :=
  (∃ e', Operand Γ e i e') ∨ Blank c

theorem uniform_or_blank {Γ : Scope Ty} {a : α} {op : Token} {t : Ty} {x y : Expr α}
    (hop : op ∈ Token.binaryOps) (hleft : leftType? op = some t) :
    Each (CheckedOrBlank Γ (.binary a op x y))
      (Node.expr (uniform a op t (expr Γ x) (expr Γ y)).tree).children := by
  refine .cons (.inl ⟨x, .binaryLeft hop⟩) (.cons ?_ .nil)
  rcases expect_ok_or_blank (expr Γ x) t ((expr Γ y).expect t) with hx | hblank
  · refine .inl ⟨y, .binaryRight hop hx fun s hs => ?_⟩
    rw [hleft] at hs
    exact Option.some.inj hs
  · exact .inr hblank

/-- An operand is checked, or it has no entries. -/
theorem operand_or_blank (Γ : Scope Ty) (e : Expr α) :
    Each (CheckedOrBlank Γ e) (checked Γ (.expr e)).children := by
  cases e with
  | name | int | bool => exact .nil
  | pair a x y =>
    refine .cons (.inl ⟨x, .pairLeft⟩) (.cons ?_ .nil)
    cases hx : (expr Γ x).type with
    | ok s => exact .inl ⟨y, .pairRight hx⟩
    | error f => exact .inr (blank_after hx _)
  | unary a op x =>
    rw [checked, expr]
    unfold unary
    split
    · exact .cons (.inl ⟨x, .unary (by decide)⟩) .nil
    · exact .cons (.inl ⟨x, .unary (by decide)⟩) .nil
    · exact .cons (.inl ⟨x, .unary (by decide)⟩) .nil
    · exact .cons (.inl ⟨x, .unary (by decide)⟩) .nil
    · exact .cons (.inr (blank_clear _)) .nil
  | binary a op x y =>
    rw [checked, expr]
    unfold binary
    split
    · exact uniform_or_blank (by decide) rfl
    · exact uniform_or_blank (by decide) rfl
    · exact uniform_or_blank (by decide) rfl
    · refine .cons (.inl ⟨x, .binaryLeft (by decide)⟩) (.cons ?_ .nil)
      cases hx : (expr Γ x).type with
      | ok s => exact .inl ⟨y, .binaryRight (by decide) hx fun t ht => by cases ht⟩
      | error f => exact .inr (blank_after hx _)
    · exact .cons (.inr (blank_clear _)) (.cons (.inr (blank_clear _)) .nil)
  | entry a k v =>
    refine .cons (.inl ⟨k, .entryKey⟩) (.cons ?_ .nil)
    exact (expect_ok_or_blank (expr Γ k) Ty.key (expr Γ v)).imp_left fun hk => ⟨v, .entryValue hk⟩
  | select a op d k =>
    refine .cons ?_ (.cons (.inl ⟨k, .selectKey⟩) .nil)
    exact (expect_ok_or_blank (expr Γ k) Ty.key (expr Γ d)).imp_left fun hk => ⟨d, .selectBase hk⟩
  | store a op d k v =>
    have hbase : op ≠ .create → CheckedOrBlank Γ (.store a op d k v) 0
        (.expr ((expr Γ d).after ((expr Γ k).expect Ty.key)).tree) := fun hop =>
      (expect_ok_or_blank (expr Γ k) Ty.key (expr Γ d)).imp_left fun hk => ⟨d, .storeBase hop hk⟩
    cases op with
    | create =>
      refine .cons (.inr (blank_clear _)) (.cons (.inl ⟨k, .storeKey⟩) (.cons ?_ .nil))
      exact (expect_ok_or_blank (expr Γ k) Ty.key (expr Γ v)).imp_left
        fun hk => ⟨v, .createValue hk⟩
    | get | delete | other n =>
      refine .cons (hbase (by rintro ⟨⟩)) (.cons (.inl ⟨k, .storeKey⟩) (.cons ?_ .nil))
      exact .inr (blank_clear _)
    | update =>
      refine .cons (hbase (by rintro ⟨⟩)) (.cons (.inl ⟨k, .storeKey⟩) (.cons ?_ .nil))
      cases helem : (based (expr Γ d) (expr Γ k)).1 with
      | ok t =>
        obtain ⟨hk, hd⟩ := based_elem_eq_ok_iff.1 helem
        exact .inl ⟨v, .updateValue hk hd⟩
      | error f => exact .inr (blank_after (r := ⟨_, _⟩) helem _)

/-- Without its notes, a checked node is the node. -/
theorem checked_map_ann (Γ : Scope Ty) : ∀ n : Node α, (checked Γ n).map Note.ann = n
  | .program p => congrArg Node.program p.check_tree_map_ann
  | .seq s => congrArg Node.seq (seq_tree_map_ann Γ s)
  | .stmt s => congrArg Node.stmt (stmt_tree_map_ann Γ s)
  | .expr e => congrArg Node.expr (expr_tree_map_ann Γ e)

/-- **A child is checked, or it has no entries**, apart from names that are bound or assigned. -/
theorem calls_or_blank (Γ : Scope Ty) (n : Node α) :
    Each (fun i c => n.target i = false → (∃ n' Γ', Calls n Γ i n' Γ') ∨ Blank c)
      (checked Γ n).children := by
  -- what is checked depends on how the check of what comes before it ended
  cases n with
  | program p => exact .cons (fun _ => .inl ⟨_, _, .program⟩) .nil
  | expr e =>
    intro i c hc _
    exact (operand_or_blank Γ e i c hc).imp_left fun ⟨_, he⟩ => ⟨_, _, .operand he⟩
  | seq s =>
    cases s with
    | empty a => exact .nil
    | cons a s rest =>
      cases hs : (stmt Γ s).result with
      | ok _ =>
        simp only [checked, seq, hs]
        exact .cons (fun _ => .inl ⟨_, _, .first⟩) (.cons (fun _ => .inl ⟨_, _, .rest hs⟩) .nil)
      | error f =>
        simp only [checked, seq, hs]
        exact .cons (fun _ => .inl ⟨_, _, .first⟩) (.cons (fun _ => .inr (Seq.table_bare rest)) .nil)
  | stmt s =>
    cases s with
    | var a x e =>
      cases he : (expr Γ e).type <;> simp only [checked, stmt, he] <;>
      exact .cons (fun h => Bool.noConfusion h) (.cons (fun _ => .inl ⟨_, _, .var⟩) .nil)
    | assign a x e =>
      cases hx : lookup Γ x.ann x.name with
      | ok t =>
        simp only [checked, stmt, hx]
        exact .cons (fun h => Bool.noConfusion h) (.cons (fun _ => .inl ⟨_, _, .assign hx⟩) .nil)
      | error f =>
        simp only [checked, stmt, hx]
        exact .cons (fun h => Bool.noConfusion h) (.cons (fun _ => .inr (Expr.table_bare e)) .nil)
    | print a e => exact .cons (fun _ => .inl ⟨_, _, .print⟩) .nil
    | ifThen a e b =>
      cases he : ((expr Γ e).expect .bool).type with
      | ok t =>
        obtain ⟨hok, rfl⟩ := Typed.expect_type_eq_ok_iff.1 he
        simp only [checked, stmt, he]
        exact .cons (fun _ => .inl ⟨_, _, .ifThenCond⟩)
          (.cons (fun _ => .inl ⟨_, _, .ifThenYes hok⟩) .nil)
      | error f =>
        simp only [checked, stmt, he]
        exact .cons (fun _ => .inl ⟨_, _, .ifThenCond⟩)
          (.cons (fun _ => .inr (Block.table_bare b)) .nil)
    | ifElse a e b b' =>
      cases he : ((expr Γ e).expect .bool).type with
      | ok t =>
        obtain ⟨hok, rfl⟩ := Typed.expect_type_eq_ok_iff.1 he
        cases hb : (block Γ b).result with
        | ok _ =>
          simp only [checked, stmt, he, hb]
          exact .cons (fun _ => .inl ⟨_, _, .ifElseCond⟩)
            (.cons (fun _ => .inl ⟨_, _, .ifElseYes hok⟩)
              (.cons (fun _ => .inl ⟨_, _, .ifElseNo hok hb⟩) .nil))
        | error f =>
          simp only [checked, stmt, he, hb]
          exact .cons (fun _ => .inl ⟨_, _, .ifElseCond⟩)
            (.cons (fun _ => .inl ⟨_, _, .ifElseYes hok⟩)
              (.cons (fun _ => .inr (Block.table_bare b')) .nil))
      | error f =>
        simp only [checked, stmt, he]
        exact .cons (fun _ => .inl ⟨_, _, .ifElseCond⟩)
          (.cons (fun _ => .inr (Block.table_bare b)) (.cons (fun _ => .inr (Block.table_bare b')) .nil))
    | forEach a x d b =>
      cases hd : (do needDict (expr Γ d).tree.ann.ann (← (expr Γ d).type)) with
      | ok t =>
        have hbound : (declare Γ.enter x (Ty.entry t)).result = .ok () :=
          declare_result_eq_ok_iff.2 rfl
        have htype := expr_type_eq_ok_iff.2 (dict_of_loop_eq_ok_iff.1 hd)
        simp only [checked, stmt, hd, hbound]
        exact .cons (fun h => Bool.noConfusion h) (.cons (fun _ => .inl ⟨_, _, .forEachDict⟩)
          (.cons (fun _ => .inl ⟨_, _, .forEachBody htype hbound⟩) .nil))
      | error f =>
        simp only [checked, stmt, hd]
        exact .cons (fun h => Bool.noConfusion h) (.cons (fun _ => .inl ⟨_, _, .forEachDict⟩)
          (.cons (fun _ => .inr (Block.table_bare b)) .nil))
    | block b =>
      cases b
      exact .cons (fun _ => .inl ⟨_, _, .block⟩) .nil

/-! ## Entries and where the checker goes -/

theorem target_checked (Γ : Scope Ty) (n : Node α) (i : Nat) :
    (checked Γ n).target i = n.target i := by
  conv_rhs => rw [← checked_map_ann Γ n, Node.target_map]

theorem declares_checked (Γ : Scope Ty) (n : Node α) (i : Nat) :
    (checked Γ n).declares i = n.declares i := by
  conv_rhs => rw [← checked_map_ann Γ n, Node.declares_map]

theorem Calls.target {n n' : Node α} {Γ Γ' : Scope Ty} {i : Nat} (h : Calls n Γ i n' Γ') :
    n.target i = false := by
  cases h <;> rfl

/-- The statement declares a name of the type `t`, if it is checked in `Γ`. -/
inductive Declares (Γ : Scope Ty) : Stmt α → Ty → Prop where
  | var {a x e t} : (expr Γ e).type = .ok t → Γ.inner.get? x.name = none →
      Declares Γ (.var a x e) t
  | forEach {a x d b t} : (expr Γ d).type = .ok (.dict t) →
      Declares Γ (.forEach a x d b) (Ty.entry t)

/-- The table holds the entries of the nodes that the checker goes to. -/
theorem mem_table_iff {part : Info → List (List Nat × Ty)} (hpart : Info.Part part)
    {n : Node α} {Γ : Scope Ty} {path : List Nat} {x : List Nat × Ty} :
    x ∈ part ((checked Γ n).table path) ↔
      ∃ below n' Γ', Along Calls n Γ below n' Γ' ∧
        x ∈ part ((checked Γ' n').entry (path ++ below)) := by
  induction n using Node.induct generalizing Γ path with
  | step n ih =>
    rw [Node.mem_table_iff hpart]
    constructor
    · rintro (h | ⟨i, c, hc, htarget, hx⟩)
      · exact ⟨[], n, Γ, .here, by rwa [List.append_nil]⟩
      · rw [target_checked] at htarget
        rcases calls_or_blank Γ n i c hc htarget with ⟨n', Γ', hcall⟩ | hblank
        · obtain rfl := Option.some.inj (hc.symm.trans hcall.checked)
          obtain ⟨below, n'', Γ'', halong, h⟩ := (ih n' (List.mem_of_getElem? hcall.child)).1 hx
          exact ⟨i :: below, n'', Γ'', .down hcall halong,
            by rwa [List.append_assoc, List.singleton_append] at h⟩
        · rw [hblank, hpart.empty] at hx
          exact absurd hx List.not_mem_nil
    · rintro ⟨below, n', Γ', halong, h⟩
      cases halong with
      | here => exact .inl (by rwa [List.append_nil] at h)
      | @down _ _ i n₁ Γ₁ below _ _ hcall halong =>
        refine .inr ⟨i, _, hcall.checked, ?_, ?_⟩
        · rw [target_checked]
          exact hcall.target
        · refine (ih n₁ (List.mem_of_getElem? hcall.child)).2 ⟨below, n', Γ', halong, ?_⟩
          rwa [List.append_assoc, List.singleton_append]

theorem expr_tree_type (Γ : Scope Ty) (e : Expr α) :
    (expr Γ e).tree.ann.type = (expr Γ e).type.toOption := by
  rw [expr_tree_ann]

theorem mem_entry_types_iff {n : Node α} {Γ : Scope Ty} {path : List Nat} {x : List Nat × Ty} :
    x ∈ ((checked Γ n).entry path).types ↔
      ∃ e t, n = .expr e ∧ (expr Γ e).type = .ok t ∧ x = (path, t) := by
  cases n with
  | expr e =>
    refine Note.mem_typeEntry_iff.trans ?_
    rw [expr_tree_type]
    constructor
    · rintro ⟨t, ht, hx⟩
      exact ⟨e, t, rfl, toOption_eq_some_iff.1 ht, hx⟩
    · rintro ⟨_, t, ⟨⟩, ht, hx⟩
      exact ⟨t, toOption_eq_some_iff.2 ht, hx⟩
  | stmt s =>
    refine iff_of_false ?_ (by rintro ⟨_, _, ⟨⟩, -⟩)
    rw [checked, Node.entry_types_stmt]
    exact List.not_mem_nil
  | program | seq => exact iff_of_false List.not_mem_nil (by rintro ⟨_, _, ⟨⟩, -⟩)

theorem declare_tree_type_iff {Γ : Scope Ty} {x : Ident α} {s t : Ty} :
    (declare Γ x s).tree.ann.type = some t ↔ Γ.inner.get? x.name = none ∧ s = t := by
  unfold declare
  cases h : Γ.declare x.name s with
  | ok Γ' =>
    have hnew := (Scope.declare_eq_ok_iff.1 h).1
    exact ⟨fun h => ⟨hnew, Option.some.inj h⟩, fun h => congrArg some h.2⟩
  | error e =>
    refine iff_of_false (by rintro ⟨⟩) ?_
    rintro ⟨hnew, -⟩
    rw [Scope.declare_eq_ok_iff.2 ⟨hnew, rfl⟩] at h
    cases h

theorem mem_entry_defs_iff {n : Node α} {Γ : Scope Ty} {path : List Nat} {x : List Nat × Ty} :
    x ∈ ((checked Γ n).entry path).defs ↔
      ∃ s t, n = .stmt s ∧ Declares Γ s t ∧ x = (path ++ [0], t) := by
  cases n with
  | stmt s =>
    cases s with
    | var a y e =>
      cases he : (expr Γ e).type with
      | error f =>
        simp only [checked, stmt, he]
        refine iff_of_false List.not_mem_nil ?_
        rintro ⟨_, t, ⟨⟩, h, -⟩
        cases h with
        | var h _ => cases he.symm.trans h
      | ok s =>
        simp only [checked, stmt, he]
        refine Note.mem_defEntry_iff.trans ?_
        constructor
        · rintro ⟨t, ht, hx⟩
          obtain ⟨hnew, rfl⟩ := declare_tree_type_iff.1 ht
          exact ⟨_, s, rfl, .var he hnew, hx⟩
        · rintro ⟨_, t, ⟨⟩, h, hx⟩
          cases h with
          | var h hnew =>
            exact ⟨t, declare_tree_type_iff.2 ⟨hnew, Except.ok.inj (he.symm.trans h)⟩, hx⟩
    | forEach a y d b =>
      cases hd : (do needDict (expr Γ d).tree.ann.ann (← (expr Γ d).type)) with
      | error f =>
        simp only [checked, stmt, hd]
        refine iff_of_false List.not_mem_nil ?_
        rintro ⟨_, t, ⟨⟩, h, -⟩
        cases h with
        | forEach h => cases hd.symm.trans (dict_of_loop_eq_ok_iff.2 (expr_type_eq_ok_iff.1 h))
      | ok s =>
        have hbound : (declare Γ.enter y (Ty.entry s)).result = .ok () :=
          declare_result_eq_ok_iff.2 rfl
        have hs : (expr Γ d).type = .ok (.dict s) :=
          expr_type_eq_ok_iff.2 (dict_of_loop_eq_ok_iff.1 hd)
        simp only [checked, stmt, hd, hbound]
        refine Note.mem_defEntry_iff.trans ?_
        constructor
        · rintro ⟨t, ht, hx⟩
          obtain ⟨-, rfl⟩ := declare_tree_type_iff.1 ht
          exact ⟨_, _, rfl, .forEach hs, hx⟩
        · rintro ⟨_, t, ⟨⟩, h, hx⟩
          cases h with
          | forEach h =>
            cases hs.symm.trans h
            exact ⟨_, declare_tree_type_iff.2 ⟨rfl, rfl⟩, hx⟩
    | assign | print | ifThen | ifElse | block =>
      -- the trees of these depend on how the check ended, but their statements declare nothing
      refine iff_of_false (fun h => ?_) ?_
      · have hdeclares := Node.declares_of_mem_entry h
        rw [declares_checked] at hdeclares
        cases hdeclares
      · rintro ⟨_, _, ⟨⟩, h, -⟩
        cases h
  | program | seq | expr => exact iff_of_false List.not_mem_nil (by rintro ⟨_, _, ⟨⟩, -⟩)

/-- The checker goes to an address in one scope at most. -/
theorem along_unique {n n' n'' : Node α} {Γ Γ' Γ'' : Scope Ty} {path : List Nat}
    (h : Along Calls n Γ path n' Γ') (h' : Along Calls n Γ path n'' Γ'') : n' = n'' ∧ Γ' = Γ'' :=
  h.unique (by exact Calls.det) h'

/-- Where the checker goes, the checked tree has what it finds there. -/
theorem at?_checked {n n' : Node α} {Γ Γ' : Scope Ty} {path : List Nat}
    (h : Along Calls n Γ path n' Γ') : (checked Γ n).at? path = some (checked Γ' n') := by
  induction h with
  | here => rfl
  | down hc _ ih => rw [Node.at?_cons hc.checked, ih]

/-- A statement declares at most one name. -/
theorem Declares.unique {Γ : Scope Ty} {s : Stmt α} {t t' : Ty} (h : Declares Γ s t)
    (h' : Declares Γ s t') : t = t' := by
  cases h with
  | var h _ =>
    cases h' with
    | var h' _ => exact Except.ok.inj (h.symm.trans h')
  | forEach h =>
    cases h' with
    | forEach h' =>
      rw [h] at h'
      cases h'
      rfl

end Check

/-- In a table with one entry at most for each address, what is looked up is what was
entered. -/
theorem lookup_eq_some_iff_mem {entries : List (List Nat × Ty)}
    (hunique : ∀ path t t', (path, t) ∈ entries → (path, t') ∈ entries → t = t')
    {path : List Nat} {t : Ty} : entries.lookup path = some t ↔ (path, t) ∈ entries := by
  have hmem : ∀ {t}, entries.lookup path = some t → (path, t) ∈ entries := by
    intro t h
    obtain ⟨l₁, l₂, heq, -⟩ := List.lookup_eq_some_iff.1 h
    rw [heq]
    exact List.mem_append_right _ List.mem_cons_self
  refine ⟨hmem, fun h => ?_⟩
  cases hlookup : entries.lookup path with
  | none =>
    have hne := List.lookup_eq_none_iff.1 hlookup (path, t) h
    rw [bne_self_eq_false] at hne
    cases hne
  | some t' => rw [hunique path t t' h (hmem hlookup)]

namespace Program

/-- The table of a check of the program. -/
def info (p : Program α) : Info := p.check.2.body.table [0]

theorem mem_info_types_iff {p : Program α} {path : List Nat} {t : Ty} :
    (path, t) ∈ p.info.types ↔
      ∃ e Γ, Along Check.Calls (.program p) .empty path (.expr e) Γ ∧
        (Check.expr Γ e).type = .ok t := by
  have hroot : (path, t) ∈ ((Check.checked .empty (.program p)).table []).types ↔ _ :=
    Check.mem_table_iff Info.part_types
  refine hroot.trans ?_
  constructor
  · rintro ⟨below, n, Γ, halong, h⟩
    obtain ⟨e, _, rfl, ht, ⟨⟩⟩ := Check.mem_entry_types_iff.1 h
    exact ⟨e, Γ, halong, ht⟩
  · rintro ⟨e, Γ, halong, ht⟩
    exact ⟨path, _, Γ, halong, Check.mem_entry_types_iff.2 ⟨e, t, rfl, ht, rfl⟩⟩

/-- **A type is entered exactly for the expressions that the checker goes to and finds a type
of.** -/
theorem typeOf?_eq_some_iff {p : Program α} {path : List Nat} {t : Ty} :
    p.info.typeOf? path = some t ↔
      ∃ e Γ, Along Check.Calls (.program p) .empty path (.expr e) Γ ∧
        (Check.expr Γ e).type = .ok t := by
  refine (lookup_eq_some_iff_mem fun path t t' h h' => ?_).trans mem_info_types_iff
  obtain ⟨e, Γ, halong, ht⟩ := mem_info_types_iff.1 h
  obtain ⟨e', Γ', halong', ht'⟩ := mem_info_types_iff.1 h'
  obtain ⟨⟨⟩, rfl⟩ := Check.along_unique halong halong'
  exact Except.ok.inj (ht.symm.trans ht')

theorem mem_info_defs_iff {p : Program α} {path : List Nat} {t : Ty} :
    (path, t) ∈ p.info.defs ↔
      ∃ above s Γ, path = above ++ [0] ∧ Along Check.Calls (.program p) .empty above (.stmt s) Γ ∧
        Check.Declares Γ s t := by
  have hroot : (path, t) ∈ ((Check.checked .empty (.program p)).table []).defs ↔ _ :=
    Check.mem_table_iff Info.part_defs
  refine hroot.trans ?_
  constructor
  · rintro ⟨below, n, Γ, halong, h⟩
    obtain ⟨s, _, rfl, ht, ⟨⟩⟩ := Check.mem_entry_defs_iff.1 h
    exact ⟨below, s, Γ, rfl, halong, ht⟩
  · rintro ⟨above, s, Γ, rfl, halong, ht⟩
    exact ⟨above, _, Γ, halong, Check.mem_entry_defs_iff.2 ⟨s, t, rfl, ht, rfl⟩⟩

/-- **A type is entered exactly for the names that are declared where the checker goes to.** -/
theorem defOf?_eq_some_iff {p : Program α} {path : List Nat} {t : Ty} :
    p.info.defOf? path = some t ↔
      ∃ above s Γ, path = above ++ [0] ∧ Along Check.Calls (.program p) .empty above (.stmt s) Γ ∧
        Check.Declares Γ s t := by
  refine (lookup_eq_some_iff_mem fun path t t' h h' => ?_).trans mem_info_defs_iff
  obtain ⟨above, s, Γ, rfl, halong, ht⟩ := mem_info_defs_iff.1 h
  obtain ⟨above', s', Γ', heq, halong', ht'⟩ := mem_info_defs_iff.1 h'
  obtain rfl := List.append_cancel_right heq
  obtain ⟨⟨⟩, rfl⟩ := Check.along_unique halong halong'
  exact ht.unique ht'

end Program

end PairDict
