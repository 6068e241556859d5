import Mathlib.Data.List.Induction
import PairDict.Proofs.Value.Ordered
import PairDict.Proofs.Value.Shared

/-! # A dictionary answers as its history says

A dictionary is what a history of **writes** leaves of the empty one (`written`), each of which
sets or drops the entry of one key.  What a key has afterwards is for the last write to this
key to say (`LastWrites`), and nothing else matters: histories with the same last writes leave
the same dictionary (`written_eq`), so that writes to different keys can be exchanged.

`Reflects d holds` says in full how a dictionary answers for the map in which `k` has the
value `v` where `holds k v`: by looking keys up, and by showing its entries.  Of every
dictionary that a history comes through this is true, whatever is written later
(`history_reflected`).

It is true as well where dictionaries are trees that are shared: a history that is performed in
a memory leaves at the address of each of its dictionaries what the writes before have left, and
all that was in the memory as it was (`performFrom_keeps`).
-/
namespace PairDict.Dict

/-! ## Writes -/

/-- One step of a history. -/
inductive Write where
  /-- Set the value of a key. -/
  | insert (key : Int64) (value : Value)
  /-- Drop the entry of a key. -/
  | erase (key : Int64)

namespace Write

/-- The key that is written to. -/
def key : Write → Int64
  | .insert k _ | .erase k => k

/-- The value that the key has afterwards. -/
def value? : Write → Option Value
  | .insert _ v => some v
  | .erase _ => none

theorem value?_eq_some_iff (w : Write) {v : Value} :
    w.value? = some v ↔ w = .insert w.key v := by
  cases w with
  | insert k u => rw [value?, key, Option.some.injEq, Write.insert.injEq, and_iff_right rfl]
  | erase k => exact iff_of_false nofun nofun

/-- The dictionary afterwards. -/
def apply : Write → Dict → Dict
  | .insert k v, d => d.insert k v
  | .erase k, d => d.erase k

theorem ordered_apply (w : Write) (d : Dict) : (w.apply d).Ordered := by
  cases w with
  | insert k v => exact ordered_insert k v d
  | erase k => exact ordered_erase k d

/-- **A write decides what its key has, and no other key.** -/
theorem get?_apply (w : Write) {d : Dict} (hd : d.Ordered) (k : Int64) :
    (w.apply d).get? k = if w.key = k then w.value? else d.get? k := by
  split
  · next hk =>
    subst hk
    cases w with
    | insert key v => exact get?_insert_self key v d
    | erase key => exact get?_erase_self key d
  · next hk =>
    cases w with
    | insert key v => exact get?_insert_of_ne hd (Ne.symm hk)
    | erase key => exact get?_erase_of_ne hd (Ne.symm hk)

/-- Writes to different keys can be exchanged. -/
theorem apply_comm {w w' : Write} (h : w.key ≠ w'.key) {d : Dict} (hd : d.Ordered) :
    w'.apply (w.apply d) = w.apply (w'.apply d) := by
  refine (w'.ordered_apply _).ext (w.ordered_apply _) fun k => ?_
  rw [get?_apply w' (w.ordered_apply d), get?_apply w hd, get?_apply w (w'.ordered_apply d),
    get?_apply w' hd]
  by_cases hk : w.key = k
  · rw [if_pos hk, if_pos hk, if_neg fun hk' => h (hk.trans hk'.symm)]
  · rw [if_neg hk, if_neg hk]

end Write

/-! ## Histories -/

/-- What a history leaves of the empty dictionary. -/
def written (ws : List Write) : Dict := ws.foldl (fun d w => w.apply d) empty

/-- The dictionaries that a history comes through, of which the first is empty. -/
def versions (ws : List Write) : List Dict := ws.scanl (fun d w => w.apply d) empty

/-- The last write to `k` sets it to `v`. -/
def LastWrites (ws : List Write) (k : Int64) (v : Value) : Prop :=
  ∃ before after, ws = before ++ .insert k v :: after ∧ ∀ w ∈ after, w.key ≠ k

variable {ws ws' : List Write} {w w' : Write} {k : Int64} {v : Value} {d : Dict}

theorem written_append (ws more : List Write) :
    written (ws ++ more) = more.foldl (fun d w => w.apply d) (written ws) :=
  List.foldl_append

theorem written_snoc (ws : List Write) (w : Write) : written (ws ++ [w]) = w.apply (written ws) :=
  written_append ws [w]

theorem ordered_written (ws : List Write) : (written ws).Ordered := by
  induction ws using List.reverseRecOn with
  | nil => exact .empty
  | append_singleton ws w _ =>
    rw [written_snoc]
    exact w.ordered_apply _

/-- The last of all writes is the last one to its key, and to no other. -/
theorem lastWrites_snoc :
    LastWrites (ws ++ [w]) k v ↔ w = .insert k v ∨ w.key ≠ k ∧ LastWrites ws k v := by
  constructor
  · rintro ⟨before, after, heq, hafter⟩
    rcases List.eq_nil_or_concat after with rfl | ⟨init, last, rfl⟩
    · obtain ⟨-, hw⟩ := List.append_inj' heq rfl
      exact .inl (List.cons.inj hw).1
    · rw [List.concat_eq_append] at heq hafter
      rw [← List.cons_append, ← List.append_assoc] at heq
      obtain ⟨rfl, hw⟩ := List.append_inj' heq rfl
      cases hw
      rw [List.forall_mem_append, List.forall_mem_singleton] at hafter
      exact .inr ⟨hafter.2, before, init, rfl, hafter.1⟩
  · rintro (rfl | ⟨hne, before, after, rfl, hafter⟩)
    · exact ⟨ws, [], rfl, nofun⟩
    · refine ⟨before, after ++ [w], by rw [List.append_assoc, List.cons_append], ?_⟩
      rw [List.forall_mem_append, List.forall_mem_singleton]
      exact ⟨hafter, hne⟩

/-- **A key has the value that the last write to it has set.** -/
theorem get?_written_iff : (written ws).get? k = some v ↔ LastWrites ws k v := by
  induction ws using List.reverseRecOn with
  | nil =>
    refine iff_of_false nofun ?_
    rintro ⟨before, after, heq, -⟩
    exact List.append_ne_nil_of_right_ne_nil before (List.cons_ne_nil _ after) heq.symm
  | append_singleton ws w ih =>
    rw [written_snoc, w.get?_apply (ordered_written ws), lastWrites_snoc]
    by_cases hk : w.key = k
    · subst hk
      rw [if_pos rfl, w.value?_eq_some_iff]
      exact ⟨.inl, fun h => h.resolve_right fun hne => hne.1 rfl⟩
    · rw [if_neg hk, ih]
      refine ⟨fun h => .inr ⟨hk, h⟩, fun h => (h.resolve_left ?_).2⟩
      rintro rfl
      exact hk rfl

/-- **Only the last writes matter.** -/
theorem written_eq (h : ∀ k v, LastWrites ws k v ↔ LastWrites ws' k v) :
    written ws = written ws' := by
  refine (ordered_written ws).ext (ordered_written ws') fun k => Option.ext fun v => ?_
  rw [get?_written_iff, get?_written_iff, h]

theorem written_exchange (h : w.key ≠ w'.key) (ws more : List Write) :
    written (ws ++ w :: w' :: more) = written (ws ++ w' :: w :: more) := by
  rw [written_append, written_append, List.foldl_cons, List.foldl_cons, List.foldl_cons,
    List.foldl_cons, Write.apply_comm h (ordered_written ws)]

/-- A version is what the writes before it have left. -/
theorem getElem?_versions {i : Nat} (h : i ≤ ws.length) (more : List Write) :
    (versions (ws ++ more))[i]? = some (written (ws.take i)) := by
  rw [versions, List.getElem?_scanl, if_pos, List.take_append_of_le_length h]
  · rfl
  · rw [List.length_append]
    omega

/-! ## Shared trees -/

/-- Perform a write on the dictionary whose tree is at an address: the address of the tree that
it gives, and the memory. -/
def Write.perform (r : Nat) : Write → Trees → Nat × Trees
  | .insert k v, m => m.insert r k v
  | .erase k, m => m.erase r k

/-- Perform writes, each on the dictionary that the one before has given: the addresses of the
trees that this comes through, and the memory. -/
def performFrom (r : Nat) : List Write → Trees → List Nat × Trees
  | [], m => ([r], m)
  | w :: ws, m =>
    let (c, m') := w.perform r m
    let (rs, m'') := performFrom c ws m'
    (r :: rs, m'')

/-- Perform the writes of a history, from a new dictionary on. -/
def performed (ws : List Write) (m : Trees) : List Nat × Trees :=
  let (r, m') := m.create
  performFrom r ws m'

section

variable {m : Trees} {r : Nat}

/-- A write makes one new tree, and leaves all others as they are. -/
theorem Write.perform_eq (w : Write) (h : m[r]? = some d) :
    w.perform r m = (m.length, m ++ [w.apply d]) := by
  cases w with
  | insert k v => exact Trees.insert_eq h k v
  | erase k => exact Trees.erase_eq h k

/-- **The memory keeps what it holds** while a history is performed, and so each tree that the
history comes through is at its address afterwards. -/
theorem performFrom_keeps (ws : List Write) (h : m[r]? = some d) :
    m.Keeps (performFrom r ws m).2 ∧
      ∀ i, i ≤ ws.length → ∃ q : Nat, (performFrom r ws m).1[i]? = some q ∧
        (performFrom r ws m).2[q]? = some ((ws.take i).foldl (fun d w => w.apply d) d) := by
  induction ws generalizing m r d with
  | nil =>
    refine ⟨.refl m, fun i hi => ⟨r, ?_, ?_⟩⟩
    · rw [Nat.le_zero.1 hi]
      rfl
    · rw [List.take_nil]
      exact h
  | cons w ws ih =>
    obtain ⟨hkeeps, hafter⟩ := ih (List.getElem?_concat_length (l := m) (a := w.apply d))
    have hkept := (Trees.keeps_append m [w.apply d]).trans hkeeps
    rw [performFrom, w.perform_eq h]
    refine ⟨hkept, fun i hi => ?_⟩
    cases i with
    | zero => exact ⟨r, rfl, hkept r d h⟩
    | succ i => exact hafter i (Nat.le_of_succ_le_succ hi)

theorem performed_keeps (ws : List Write) (m : Trees) :
    m.Keeps (performed ws m).2 ∧
      ∀ i, i ≤ ws.length → ∃ q : Nat, (performed ws m).1[i]? = some q ∧
        (performed ws m).2[q]? = some (written (ws.take i)) := by
  obtain ⟨hkeeps, hafter⟩ :=
    performFrom_keeps ws (List.getElem?_concat_length (l := m) (a := Dict.empty))
  exact ⟨(Trees.keeps_append m [.empty]).trans hkeeps, hafter⟩

end

/-! ## Visits -/

theorem visited_of_forall {more : Int64 → Value → Bool} :
    ∀ {d : Dict}, (∀ b ∈ d.toList, more b.1 b.2 = true) → d.visited more = d.toList
  | .nil, _ => rfl
  | .cons k v rest, h => by
    rw [toList_cons, List.forall_mem_cons] at h
    rw [visited, if_pos h.1, visited_of_forall h.2, toList_cons]

/-- A visit is over after the first entry that is not to be followed by more. -/
theorem visited_of_stop {more : Int64 → Value → Bool} {after : List (Int64 × Value)} :
    ∀ {before : List (Int64 × Value)} {d : Dict}, d.toList = before ++ (k, v) :: after →
      (∀ b ∈ before, more b.1 b.2 = true) → more k v = false →
      d.visited more = before ++ [(k, v)]
  | [], .cons _ _ rest, hd, _, hstop => by
    cases hd
    rw [visited, hstop, if_neg Bool.false_ne_true, List.nil_append]
  | b :: before, .cons _ _ rest, hd, hbefore, hstop => by
    rw [List.forall_mem_cons] at hbefore
    obtain ⟨rfl, hrest⟩ := List.cons.inj hd
    rw [visited, if_pos hbefore.1, visited_of_stop hrest hbefore.2 hstop, List.cons_append]
  | [], .nil, hd, _, _ | _ :: _, .nil, hd, _, _ => by cases hd

/-! ## Answers -/

/-- The dictionary answers for the map in which `k` has the value `v` where `holds k v`. -/
structure Reflects (d : Dict) (holds : Int64 → Value → Prop) : Prop where
  /-- A key is looked up. -/
  get : ∀ k v, d.get? k = some v ↔ holds k v
  /-- The entries are those of the map. -/
  entries : ∀ k v, (k, v) ∈ d.toList ↔ holds k v
  /-- They are shown by ascending keys, negative ones first, and so each of them once. -/
  ascending : d.toList.Pairwise fun b c => b.1.toInt < c.1.toInt
  /-- A visitor who always goes on is shown all of them. -/
  visits : ∀ more : Int64 → Value → Bool, (∀ b ∈ d.toList, more b.1 b.2 = true) →
    d.visited more = d.toList
  /-- A visitor who stops at an entry is shown nothing behind it. -/
  stops : ∀ (more : Int64 → Value → Bool) before k v after, d.toList = before ++ (k, v) :: after →
    (∀ b ∈ before, more b.1 b.2 = true) → more k v = false → d.visited more = before ++ [(k, v)]
  /-- They are counted. -/
  size : d.size = d.toList.length
  /-- Dropping what is not there leaves them as they are. -/
  absent : ∀ k, d.get? k = none → (d.erase k).toList = d.toList

theorem Ordered.reflects (h : d.Ordered) : d.Reflects fun k v => d.get? k = some v where
  get _ _ := Iff.rfl
  entries _ _ := h.mem_toList_iff
  ascending := h.imp Int64.lt_iff_toInt_lt.1
  visits _ := visited_of_forall
  stops _ _ _ _ _ := visited_of_stop
  size := size_eq d
  absent k hk := by
    refine congrArg toList ((ordered_erase k d).ext h fun k' => ?_)
    by_cases hne : k' = k
    · rw [hne, get?_erase_self, hk]
    · exact get?_erase_of_ne h hne

theorem written_reflects (ws : List Write) : (written ws).Reflects (LastWrites ws) := by
  have hholds : LastWrites ws = fun k v => (written ws).get? k = some v :=
    funext fun k => funext fun v => propext get?_written_iff.symm
  rw [hholds]
  exact (ordered_written ws).reflects

/-- **A dictionary answers as its history says.**  It reflects the last writes to its keys, and
only these matter, so writes to different keys can be exchanged.  And so does every dictionary
that the history has come through, whatever is written afterwards; also where it is a tree in a
memory, of which nothing that was there before is changed. -/
theorem history_reflected (ws : List Write) :
    (written ws).Reflects (LastWrites ws) ∧
    (∀ ws', (∀ k v, LastWrites ws k v ↔ LastWrites ws' k v) →
      (written ws).toList = (written ws').toList) ∧
    (∀ w w' more, w.key ≠ w'.key →
      (written (ws ++ w :: w' :: more)).toList = (written (ws ++ w' :: w :: more)).toList) ∧
    (∀ more i, i ≤ ws.length →
      ∃ d, (versions (ws ++ more))[i]? = some d ∧ d.Reflects (LastWrites (ws.take i))) ∧
    ∀ more (m : Trees), m.Keeps (performed (ws ++ more) m).2 ∧
      ∀ i, i ≤ ws.length → ∃ (q : Nat) (d : Dict), (performed (ws ++ more) m).1[i]? = some q ∧
        (performed (ws ++ more) m).2[q]? = some d ∧ d.Reflects (LastWrites (ws.take i)) := by
  refine ⟨written_reflects ws, fun ws' h => ?_, fun w w' more h => ?_, fun more i h => ?_,
    fun more m => ⟨(performed_keeps _ m).1, fun i h => ?_⟩⟩
  · rw [written_eq h]
  · rw [written_exchange h]
  · exact ⟨written (ws.take i), getElem?_versions h more, written_reflects _⟩
  · have hlength : i ≤ (ws ++ more).length := by
      rw [List.length_append]
      exact Nat.le_add_right_of_le h
    obtain ⟨q, hq, hread⟩ := (performed_keeps _ m).2 i hlength
    rw [List.take_append_of_le_length h] at hread
    exact ⟨q, _, hq, hread, written_reflects _⟩

end PairDict.Dict
