import Mathlib.Data.List.Nodup
import PairDict.Proofs.Tree.Address

/-! # Tours

A **tour** is a walk with a visitor that keeps notes: what it answers at a node may depend on
everything that it was asked before.  It is asked about a node at its address, so it can tell
equal nodes apart.  The log of a tour lists the addresses at which the visitor was asked, with
its answers.

* The nodes of a tree have the addresses `Node.addresses`, each of them once
  (`Node.nodup_addresses`, `Node.mem_addresses_iff`).
* Whatever the visitor answers, what it visits is all addresses without those below an
  address that it refused (`Node.visited_tour`).
* A walk is the tour of a visitor without notes (`Node.walk_eq_tour`), and so a walk that
  enters every node visits every address (`Node.walk_eq_addresses`).
-/
namespace PairDict

variable {α σ : Type}

/-- A visitor says whether to enter the node at an address, and takes its notes. -/
abbrev Visitor (α σ : Type) := List Nat → Node α → σ → Bool × σ

/-- The addresses at which a visitor was asked, and its answers. -/
abbrev Log := List (List Nat × Bool)

namespace Log

/-- The addresses that were visited. -/
def visited (log : Log) : List (List Nat) := log.map Prod.fst

/-- The addresses that were not entered. -/
def refused (log : Log) : List (List Nat) := (log.filter fun entry => !entry.2).map Prod.fst

/-- The log as it is seen from the parent, of which it is the child `i`. -/
def under (i : Nat) (log : Log) : Log := log.map fun entry => (i :: entry.1, entry.2)

theorem visited_append (log log' : Log) :
    visited (log ++ log') = visited log ++ visited log' :=
  List.map_append

theorem visited_under (i : Nat) (log : Log) : (log.under i).visited = log.visited.map (i :: ·) := by
  rw [visited, visited, under, List.map_map, List.map_map]
  rfl

theorem refused_append (log log' : Log) :
    refused (log ++ log') = refused log ++ refused log' := by
  rw [refused, List.filter_append, List.map_append]
  rfl

theorem refused_under (i : Nat) (log : Log) : (log.under i).refused = log.refused.map (i :: ·) := by
  rw [refused, refused, under, List.filter_map, List.map_map, List.map_map]
  rfl

theorem mem_visited_of_mem_refused {log : Log} {path : List Nat} (h : path ∈ log.refused) :
    path ∈ log.visited := by
  obtain ⟨entry, hentry, rfl⟩ := List.mem_map.1 h
  exact List.mem_map_of_mem (List.mem_of_mem_filter hentry)

end Log

/-- The one address lies properly below the other. -/
def Below (path above : List Nat) : Prop := above <+: path ∧ above ≠ path

instance (path above : List Nat) : Decidable (Below path above) := inferInstanceAs (Decidable (_ ∧ _))

namespace Node

/-- The number of nodes of trees that stand side by side. -/
def sizes (cs : List (Node α)) : Nat := (cs.flatMap (walk fun _ => true)).length

/-- The number of nodes of a tree. -/
def size (n : Node α) : Nat := (n.walk fun _ => true).length

theorem sizes_cons (c : Node α) (cs : List (Node α)) : sizes (c :: cs) = c.size + sizes cs := by
  rw [sizes, List.flatMap_cons, List.length_append]
  rfl

theorem size_eq (n : Node α) : n.size = sizes n.children + 1 := by
  rw [size, walk_eq, visit, if_pos rfl, List.length_cons]
  rfl

theorem size_pos (n : Node α) : 0 < n.size := by
  rw [size_eq]
  exact Nat.succ_pos _

theorem size_le_sizes {c : Node α} {cs : List (Node α)} (h : c ∈ cs) : c.size ≤ sizes cs := by
  induction cs with
  | nil => cases h
  | cons c' cs ih =>
    rw [sizes_cons]
    rcases List.mem_cons.1 h with rfl | h
    · exact Nat.le_add_right ..
    · exact Nat.le_add_left_of_le (ih h)

mutual

/-- The addresses of all nodes in the order of a walk. -/
def addresses (n : Node α) : List (List Nat) := [] :: addressesFrom 0 n.children
termination_by 2 * n.size
decreasing_by
  rw [size_eq]
  omega

/-- The addresses below children that are counted from `i`. -/
def addressesFrom (i : Nat) : List (Node α) → List (List Nat)
  | [] => []
  | c :: cs => c.addresses.map (i :: ·) ++ addressesFrom (i + 1) cs
termination_by cs => 2 * sizes cs + 1
decreasing_by
  all_goals
    have := size_pos c
    rw [sizes_cons]
    omega

end

mutual

/-- The log of a tour, and the notes after it. -/
def tour (v : Visitor α σ) (n : Node α) (s : σ) : Log × σ :=
  let answer := v [] n s
  if answer.1 then
    let below := tourFrom v 0 n.children answer.2
    (([], true) :: below.1, below.2)
  else ([([], false)], answer.2)
termination_by 2 * n.size
decreasing_by
  rw [size_eq]
  omega

/-- The log of the tours of children that are counted from `i`. -/
def tourFrom (v : Visitor α σ) (i : Nat) : List (Node α) → σ → Log × σ
  | [], s => ([], s)
  | c :: cs, s =>
    let first := tour (fun path => v (i :: path)) c s
    let rest := tourFrom v (i + 1) cs first.2
    (first.1.under i ++ rest.1, rest.2)
termination_by cs => 2 * sizes cs + 1
decreasing_by
  all_goals
    have := size_pos c
    rw [sizes_cons]
    omega

end

variable {n : Node α} {cs : List (Node α)} {path : List Nat} {i : Nat}

/-- What holds of a node if it holds of its children holds of all nodes. -/
theorem induct {P : Node α → Prop} (step : ∀ n : Node α, (∀ c ∈ n.children, P c) → P n)
    (n : Node α) : P n := by
  induction hsize : n.size using Nat.strongRecOn generalizing n with
  | ind k ih =>
    refine step n fun c hc => ih c.size ?_ c rfl
    rw [← hsize, size_eq n]
    exact Nat.lt_succ_of_le (size_le_sizes hc)

/-! ## Addresses -/

theorem mem_addressesFrom :
    path ∈ addressesFrom i cs ↔
      ∃ j below c, path = (i + j) :: below ∧ cs[j]? = some c ∧ below ∈ c.addresses := by
  induction cs generalizing i with
  | nil =>
    rw [addressesFrom]
    refine iff_of_false List.not_mem_nil ?_
    rintro ⟨j, below, c, -, hc, -⟩
    cases hc
  | cons c cs ih =>
    rw [addressesFrom, List.mem_append, List.mem_map, ih]
    constructor
    · rintro (⟨below, hbelow, rfl⟩ | ⟨j, below, c', rfl, hc', hbelow⟩)
      · exact ⟨0, below, c, rfl, rfl, hbelow⟩
      · exact ⟨j + 1, below, c', by rw [Nat.add_right_comm, Nat.add_assoc], hc', hbelow⟩
    · rintro ⟨j, below, c', rfl, hc', hbelow⟩
      cases j with
      | zero =>
        cases hc'
        exact .inl ⟨below, hbelow, rfl⟩
      | succ j => exact .inr ⟨j, below, c', by rw [Nat.add_right_comm, Nat.add_assoc], hc', hbelow⟩

/-- **The addresses are those at which there is a node.** -/
theorem mem_addresses_iff (n : Node α) (path : List Nat) :
    path ∈ n.addresses ↔ (n.at? path).isSome = true := by
  induction path generalizing n with
  | nil =>
    rw [addresses]
    exact iff_of_true List.mem_cons_self rfl
  | cons i path ih =>
    rw [addresses, List.mem_cons, mem_addressesFrom, at?]
    constructor
    · rintro (h | ⟨j, below, c, heq, hc, hbelow⟩)
      · cases h
      · rw [Nat.zero_add] at heq
        cases heq
        rw [hc]
        exact (ih c).1 hbelow
    · intro h
      cases hc : n.children[i]? with
      | none =>
        rw [hc] at h
        cases h
      | some c =>
        rw [hc] at h
        exact .inr ⟨i, path, c, by rw [Nat.zero_add], hc, (ih c).2 h⟩

theorem nodup_addressesFrom (h : ∀ c ∈ cs, c.addresses.Nodup) (i : Nat) :
    (addressesFrom i cs).Nodup := by
  induction cs generalizing i with
  | nil =>
    rw [addressesFrom]
    exact List.nodup_nil
  | cons c cs ih =>
    obtain ⟨hc, hcs⟩ := List.forall_mem_cons.1 h
    rw [addressesFrom]
    refine List.Nodup.append (hc.map fun _ _ heq => (List.cons.inj heq).2) (ih hcs (i + 1)) ?_
    -- addresses below one child start with its number
    intro path hfirst hrest
    obtain ⟨below, -, rfl⟩ := List.mem_map.1 hfirst
    obtain ⟨j, below', -, heq, -⟩ := mem_addressesFrom.1 hrest
    have hnumber : i = i + 1 + j := (List.cons.inj heq).1
    omega

/-- **No address is listed twice.** -/
theorem nodup_addresses (n : Node α) : n.addresses.Nodup := by
  induction n using induct with
  | step n ih =>
    rw [addresses, List.nodup_cons]
    refine ⟨fun h => ?_, nodup_addressesFrom ih 0⟩
    obtain ⟨j, below, -, heq, -⟩ := mem_addressesFrom.1 h
    cases heq

theorem addressesFrom_map {β : Type} (f : α → β)
    (h : ∀ c ∈ cs, (Node.map f c).addresses = c.addresses) (i : Nat) :
    addressesFrom i (cs.map (Node.map f)) = addressesFrom i cs := by
  induction cs generalizing i with
  | nil => rw [List.map_nil, addressesFrom, addressesFrom]
  | cons c cs ih =>
    obtain ⟨hc, hcs⟩ := List.forall_mem_cons.1 h
    rw [List.map_cons, addressesFrom, addressesFrom, hc, ih hcs]

theorem addresses_map {β : Type} (f : α → β) (n : Node α) :
    (n.map f).addresses = n.addresses := by
  induction n using induct with
  | step n ih => rw [addresses, addresses, children_map, addressesFrom_map f ih]

/-! ## What a tour visits -/

theorem below_cons_iff {above : List Nat} :
    Below (i :: path) (i :: above) ↔ Below path above := by
  rw [Below, Below, List.cons_prefix_cons, and_iff_right rfl, Ne, List.cons.injEq,
    and_iff_right rfl]

theorem Below.head_eq {above : List Nat} {j : Nat} (h : Below (i :: path) (j :: above)) : j = i :=
  (List.cons_prefix_cons.1 h.1).1

/-- The addresses that are not below a refused one. -/
def kept (log : Log) (paths : List (List Nat)) : List (List Nat) :=
  paths.filter fun path => ∀ above ∈ log.refused, ¬ Below path above

theorem mem_of_mem_kept {log : Log} {paths : List (List Nat)} (h : path ∈ kept log paths) :
    path ∈ paths :=
  List.mem_of_mem_filter h

theorem kept_append (log : Log) (paths paths' : List (List Nat)) :
    kept log (paths ++ paths') = kept log paths ++ kept log paths' :=
  List.filter_append ..

/-- Below the child `i` only what was refused there is cut off. -/
theorem kept_under {log log' : Log} {paths : List (List Nat)}
    (h : ∀ above ∈ log'.refused, ∀ path, ¬ Below (i :: path) above) :
    kept (log.under i ++ log') (paths.map (i :: ·)) = (kept log paths).map (i :: ·) := by
  rw [kept, List.filter_map, kept]
  refine congrArg _ (List.filter_congr fun path _ => decide_eq_decide.2 ?_)
  rw [Log.refused_append, Log.refused_under, List.forall_mem_append, List.forall_mem_map]
  refine ⟨fun hnone above habove hbelow => hnone.1 above habove (below_cons_iff.2 hbelow),
    fun hnone => ⟨fun above habove hbelow => hnone above habove (below_cons_iff.1 hbelow),
      fun above habove => h above habove path⟩⟩

/-- What was refused below the child `i` cuts off nothing below other children. -/
theorem kept_apart {log log' : Log} {paths : List (List Nat)}
    (h : ∀ path ∈ paths, ∀ above, ¬ Below path (i :: above)) :
    kept (log.under i ++ log') paths = kept log' paths := by
  refine List.filter_congr fun path hpath => decide_eq_decide.2 ?_
  rw [Log.refused_append, Log.refused_under, List.forall_mem_append, List.forall_mem_map]
  exact and_iff_right fun above _ => h path hpath above

theorem visited_tourFrom (v : Visitor α σ) (i : Nat) (s : σ)
    (h : ∀ c ∈ cs, ∀ (v : Visitor α σ) (s : σ),
      (tour v c s).1.visited = kept (tour v c s).1 c.addresses) :
    (tourFrom v i cs s).1.visited = kept (tourFrom v i cs s).1 (addressesFrom i cs) := by
  induction cs generalizing i s with
  | nil =>
    rw [tourFrom, addressesFrom]
    rfl
  | cons c cs ih =>
    obtain ⟨hc, hcs⟩ := List.forall_mem_cons.1 h
    have hrest := ih (i + 1) (tour (fun path => v (i :: path)) c s).2 hcs
    have hapart : ∀ path ∈ addressesFrom (i + 1) cs, ∃ j below, path = (i + 1 + j) :: below := by
      intro path hpath
      obtain ⟨j, below, -, rfl, -⟩ := mem_addressesFrom.1 hpath
      exact ⟨j, below, rfl⟩
    rw [tourFrom, addressesFrom]
    dsimp only
    rw [Log.visited_append, Log.visited_under, kept_append, hc, hrest, kept_under, kept_apart]
    · intro path hpath above hbelow
      obtain ⟨j, below, rfl⟩ := hapart path hpath
      have hnumber := Below.head_eq hbelow
      omega
    · intro above habove path hbelow
      have hmem := Log.mem_visited_of_mem_refused habove
      rw [hrest] at hmem
      obtain ⟨j, below, rfl⟩ := hapart above (mem_of_mem_kept hmem)
      have hnumber := Below.head_eq hbelow
      omega

theorem not_below_nil (above : List Nat) : ¬ Below [] above := fun ⟨hfront, hne⟩ =>
  hne (List.prefix_nil.1 hfront)

theorem below_nil (i : Nat) (path : List Nat) : Below (i :: path) [] :=
  ⟨List.nil_prefix, (List.cons_ne_nil i path).symm⟩

/-- The root is always visited. -/
theorem kept_root (log : Log) (paths : List (List Nat)) :
    kept log ([] :: paths) = [] :: kept log paths :=
  List.filter_cons_of_pos (decide_eq_true fun above _ => not_below_nil above)

theorem tour_of_enter {v : Visitor α σ} {s : σ} (h : (v [] n s).1 = true) :
    tour v n s = (([], true) :: (tourFrom v 0 n.children (v [] n s).2).1,
      (tourFrom v 0 n.children (v [] n s).2).2) := by
  rw [tour, if_pos h]

theorem tour_of_refuse {v : Visitor α σ} {s : σ} (h : (v [] n s).1 = false) :
    tour v n s = ([([], false)], (v [] n s).2) := by
  rw [tour, h]
  rfl

/-- **A tour visits all but what is below the nodes that it does not enter.** -/
theorem visited_tour (v : Visitor α σ) (n : Node α) (s : σ) :
    (tour v n s).1.visited = kept (tour v n s).1 n.addresses := by
  induction n using induct generalizing v s with
  | step n ih =>
    rw [addresses, kept_root]
    cases henter : (v [] n s).1 with
    | true =>
      rw [tour_of_enter henter]
      exact congrArg ([] :: ·) (visited_tourFrom v 0 _ ih)
    | false =>
      have hnone : kept [([], false)] (addressesFrom 0 n.children) = [] := by
        refine List.filter_eq_nil_iff.2 fun path hpath => ?_
        obtain ⟨j, below, -, rfl, -⟩ := mem_addressesFrom.1 hpath
        rw [decide_eq_true_eq]
        exact fun hkept => hkept [] List.mem_cons_self (below_nil _ below)
      rw [tour_of_refuse henter, hnone]
      rfl

/-! ## Walks -/

/-- A visitor without notes. -/
def plain (enter : Node α → Bool) : Visitor α Unit := fun _ n _ => (enter n, ())

theorem walk_eq_tourFrom (enter : Node α → Bool) {before : List (Node α)}
    (hn : n.children = before ++ cs)
    (h : ∀ c ∈ cs, (c.walk enter).map some = (tour (plain enter) c ()).1.visited.map c.at?) :
    (cs.flatMap (walk enter)).map some =
      (tourFrom (plain enter) before.length cs ()).1.visited.map n.at? := by
  induction cs generalizing before with
  | nil =>
    rw [tourFrom]
    rfl
  | cons c cs ih =>
    obtain ⟨hc, hcs⟩ := List.forall_mem_cons.1 h
    have hchild : n.children[before.length]? = some c := by
      rw [hn, List.getElem?_append_right (Nat.le_refl _), Nat.sub_self]
      rfl
    have hat : n.at? ∘ (before.length :: ·) = c.at? := funext fun path => at?_cons hchild path
    have hsplit : n.children = (before ++ [c]) ++ cs := by
      rw [hn, List.append_assoc, List.singleton_append]
    have hrest := ih hsplit hcs
    rw [List.length_append, List.length_singleton] at hrest
    rw [List.flatMap_cons, List.map_append, hc, hrest, tourFrom]
    dsimp only
    rw [Log.visited_append, Log.visited_under, List.map_append, List.map_map, hat]
    rfl

/-- **A walk is the tour of a visitor without notes.** -/
theorem walk_eq_tour (enter : Node α → Bool) (n : Node α) :
    (n.walk enter).map some = (tour (plain enter) n ()).1.visited.map n.at? := by
  induction n using induct with
  | step n ih =>
    rw [walk_eq, visit]
    cases henter : enter n with
    | true =>
      have hnil : n.children = [] ++ n.children := rfl
      have hbelow := walk_eq_tourFrom enter hnil ih
      rw [if_pos rfl, List.map_cons, hbelow, tour_of_enter henter]
      rfl
    | false =>
      rw [tour_of_refuse henter]
      rfl

/-- A visitor that enters every node refuses none. -/
theorem refused_tour_all (n : Node α) : (tour (plain fun _ => true) n ()).1.refused = [] := by
  have hfrom : ∀ (cs : List (Node α)),
      (∀ c ∈ cs, (tour (plain fun _ => true) c ()).1.refused = []) → ∀ i,
      (tourFrom (plain fun _ => true) i cs ()).1.refused = [] := by
    intro cs h
    induction cs with
    | nil =>
      intro i
      rw [tourFrom]
      rfl
    | cons c cs ih =>
      obtain ⟨hc, hcs⟩ := List.forall_mem_cons.1 h
      intro i
      have hrefused : ((tour (plain fun _ => true) c ()).1.under i).refused = [] := by
        rw [Log.refused_under, hc]
        rfl
      rw [tourFrom]
      dsimp only
      rw [Log.refused_append]
      exact List.append_eq_nil_iff.2 ⟨hrefused, ih hcs (i + 1)⟩
  induction n using induct with
  | step n ih =>
    rw [tour_of_enter rfl]
    exact hfrom n.children ih 0

/-- **A walk that enters every node visits every address.** -/
theorem walk_eq_addresses (n : Node α) :
    (n.walk fun _ => true).map some = n.addresses.map n.at? := by
  have hkept : kept (tour (plain fun _ => true) n ()).1 n.addresses = n.addresses := by
    refine List.filter_eq_self.2 fun path _ => decide_eq_true ?_
    rw [refused_tour_all]
    exact nofun
  rw [walk_eq_tour, visited_tour, hkept]

end Node

end PairDict
