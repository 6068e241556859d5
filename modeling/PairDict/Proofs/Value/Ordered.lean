import Mathlib.Data.List.Perm.Subperm
import PairDict.Value

/-! # Dictionaries keep their order

A dictionary is **ordered** if its keys ascend.  Then no key stands in it twice, looking a key
up finds the one entry that has it (`Ordered.mem_toList_iff`), and two ordered dictionaries in
which every key has the same value are the same (`Ordered.ext`).

Setting and dropping entries keep the order, and say what every key has afterwards.  A copy
of an ordered dictionary is this dictionary again (`Ordered.copy_eq`), and every copy is
ordered, so whatever an operation gives is ordered too.

A value is **made** if the dictionaries in it come from the empty one by operations, so all of
them are ordered.
-/
namespace PairDict

namespace Dict

variable {d d' : Dict} {k key : Int64} {v value : Value}

@[simp] theorem toList_nil : nil.toList = [] := rfl

@[simp] theorem toList_cons (k : Int64) (v : Value) (rest : Dict) :
    (cons k v rest).toList = (k, v) :: rest.toList := rfl

theorem not_mem_toList_empty {b : Int64 × Value} : b ∉ empty.toList := List.not_mem_nil

/-- The entries make the dictionary. -/
theorem toList_inj : ∀ {d d' : Dict}, d.toList = d'.toList ↔ d = d'
  | .nil, .nil => iff_of_true rfl rfl
  | .nil, .cons .. | .cons .., .nil => iff_of_false nofun nofun
  | .cons k v rest, .cons k' v' rest' => by
    rw [toList_cons, toList_cons, List.cons.injEq, Prod.mk.injEq, toList_inj, cons.injEq,
      and_assoc]

theorem size_eq : ∀ d : Dict, d.size = d.toList.length
  | .nil => rfl
  | .cons _ _ rest => by rw [size, toList_cons, List.length_cons, size_eq rest]

theorem mem_toList_of_get? (h : d.get? k = some v) : (k, v) ∈ d.toList := by
  fun_induction d.get? k with
  | case1 => cases h
  | case2 u rest =>
    cases h
    exact List.mem_cons_self
  | case3 k' u rest hk ih => exact List.mem_cons_of_mem _ (ih h)

/-! ## What setting and dropping do to the entries -/

theorem get?_put_self (key : Int64) (value : Value) (d : Dict) :
    (d.put key value).get? key = some value := by
  fun_induction d.put key value with
  | case1 | case2 | case3 => rw [get?, if_pos rfl]
  | case4 k v rest hlt hne ih => rwa [get?, if_neg (Ne.symm hne)]

theorem get?_put_of_ne (h : k ≠ key) (value : Value) (d : Dict) :
    (d.put key value).get? k = d.get? k := by
  fun_induction d.put key value with
  | case1 => simp only [get?, if_neg (Ne.symm h)]
  | case2 => rw [get?, if_neg (Ne.symm h)]
  | case3 v rest => rw [get?, if_neg (Ne.symm h), get?, if_neg (Ne.symm h)]
  | case4 k' v rest hlt hne ih => rw [get?, get?, ih]

theorem get?_remove_of_ne (h : k ≠ key) (d : Dict) : (d.remove key).get? k = d.get? k := by
  fun_induction d.remove key with
  | case1 => rfl
  | case2 v rest => rw [get?, if_neg (Ne.symm h)]
  | case3 k' v rest hne ih => rw [get?, get?, ih]

/-- An entry of a dictionary in which one entry was set is that one or was there before. -/
theorem mem_toList_put {b : Int64 × Value} (h : b ∈ (d.put key value).toList) :
    b = (key, value) ∨ b ∈ d.toList := by
  fun_induction d.put key value with
  | case1 => exact .inl (List.mem_singleton.1 h)
  | case2 k u rest hlt => exact List.mem_cons.1 h
  | case3 u rest hlt => exact (List.mem_cons.1 h).imp id (List.mem_cons_of_mem _)
  | case4 k u rest hlt hne ih =>
    rcases List.mem_cons.1 h with rfl | h
    · exact .inr List.mem_cons_self
    · exact (ih h).imp id (List.mem_cons_of_mem _)

theorem remove_sublist (key : Int64) (d : Dict) : (d.remove key).toList.Sublist d.toList := by
  fun_induction d.remove key with
  | case1 => exact .slnil
  | case2 v rest => exact List.sublist_cons_self _ _
  | case3 k v rest hne ih => exact ih.cons_cons _

/-- A key above all others is set at the end. -/
theorem toList_put_of_lt (h : ∀ b ∈ d.toList, b.1 < key) :
    (d.put key value).toList = d.toList ++ [(key, value)] := by
  fun_induction d.put key value with
  | case1 => rfl
  | case2 k u rest hlt =>
    have hk : k < key := h (k, u) List.mem_cons_self
    exact absurd hlt (Int64.lt_asymm hk)
  | case3 u rest hlt => exact absurd (h (key, u) List.mem_cons_self) hlt
  | case4 k u rest hlt hne ih =>
    rw [toList_cons, toList_cons, ih fun b hb => h b (List.mem_cons_of_mem _ hb), List.cons_append]

/-! ## Order -/

/-- The keys ascend. -/
def Ordered (d : Dict) : Prop := d.toList.Pairwise fun b c => b.1 < c.1

namespace Ordered

theorem empty : Dict.empty.Ordered := .nil

theorem cons_iff {rest : Dict} :
    (cons k v rest).Ordered ↔ (∀ b ∈ rest.toList, k < b.1) ∧ rest.Ordered :=
  List.pairwise_cons

theorem put (h : d.Ordered) (key : Int64) (value : Value) : (d.put key value).Ordered := by
  fun_induction d.put key value with
  | case1 => exact List.pairwise_singleton _ _
  | case2 k u rest hlt =>
    refine cons_iff.2 ⟨fun b hb => ?_, h⟩
    rcases List.mem_cons.1 hb with rfl | hb
    · exact hlt
    · exact Int64.lt_trans hlt ((cons_iff.1 h).1 b hb)
  | case3 u rest hlt => exact cons_iff.2 (cons_iff.1 h)
  | case4 k u rest hlt hne ih =>
    obtain ⟨hleast, hrest⟩ := cons_iff.1 h
    refine cons_iff.2 ⟨fun b hb => ?_, ih hrest⟩
    rcases mem_toList_put hb with rfl | hb
    · exact Int64.lt_of_le_of_ne (Int64.not_lt.1 hlt) (Ne.symm hne)
    · exact hleast b hb

theorem remove (h : d.Ordered) (key : Int64) : (d.remove key).Ordered :=
  h.sublist (remove_sublist key d)

/-- The key of the first entry stands nowhere else. -/
theorem get?_rest {rest : Dict} (h : (cons k v rest).Ordered) : rest.get? k = none := by
  cases hw : rest.get? k with
  | none => rfl
  | some w => exact absurd ((cons_iff.1 h).1 _ (mem_toList_of_get? hw)) Int64.lt_irrefl

theorem get?_remove_self (h : d.Ordered) (key : Int64) : (d.remove key).get? key = none := by
  fun_induction d.remove key with
  | case1 => rfl
  | case2 v rest => exact h.get?_rest
  | case3 k v rest hne ih =>
    rw [get?, if_neg hne]
    exact ih (cons_iff.1 h).2

/-- **A key is found with the value of its one entry.** -/
theorem mem_toList_iff (h : d.Ordered) : (k, v) ∈ d.toList ↔ d.get? k = some v := by
  refine ⟨fun hmem => ?_, mem_toList_of_get?⟩
  fun_induction d.get? k with
  | case1 => cases hmem
  | case2 u rest =>
    rcases List.mem_cons.1 hmem with heq | hmem
    · cases heq
      rfl
    · exact absurd ((cons_iff.1 h).1 _ hmem) Int64.lt_irrefl
  | case3 k' u rest hne ih =>
    rcases List.mem_cons.1 hmem with heq | hmem
    · cases heq
      exact absurd rfl hne
    · exact ih (cons_iff.1 h).2 hmem

/-- Ordered dictionaries with the same entries, in whatever order these are told, are the
same. -/
theorem eq_of_perm (h : d.Ordered) (h' : d'.Ordered) (hperm : d.toList.Perm d'.toList) :
    d = d' :=
  toList_inj.1 (hperm.eq_of_pairwise (fun _ _ _ _ hlt hgt => absurd hlt (Int64.lt_asymm hgt)) h h')

theorem nodup (h : d.Ordered) : d.toList.Nodup :=
  h.imp fun hlt heq => absurd (heq ▸ hlt) Int64.lt_irrefl

/-- Ordered dictionaries of one size are the same if the one has the entries of the other. -/
theorem eq_of_subset (h : d.Ordered) (h' : d'.Ordered) (hsize : d.size = d'.size)
    (hsub : d.toList ⊆ d'.toList) : d = d' := by
  rw [size_eq, size_eq] at hsize
  exact h.eq_of_perm h' ((h.nodup.subperm hsub).perm_of_length_le (Nat.le_of_eq hsize.symm))

/-- **Ordered dictionaries in which every key has the same value are the same.** -/
theorem ext (h : d.Ordered) (h' : d'.Ordered) (hget : ∀ k, d.get? k = d'.get? k) : d = d' := by
  refine h.eq_of_perm h' ((List.perm_ext_iff_of_nodup h.nodup h'.nodup).2 ?_)
  rintro ⟨k, v⟩
  rw [h.mem_toList_iff, h'.mem_toList_iff, hget]

end Ordered

/-! ## Copies -/

/-- Setting ascending entries, all of them above those that are there, puts them behind
these. -/
theorem toList_foldl_put {es : List (Int64 × Value)} {c : Dict}
    (h : (c.toList ++ es).Pairwise fun a b => a.1 < b.1) :
    (es.foldl (fun c e => c.put e.1 e.2) c).toList = c.toList ++ es := by
  induction es generalizing c with
  | nil => exact (List.append_nil _).symm
  | cons e es ih =>
    have hlast : (c.put e.1 e.2).toList = c.toList ++ [e] := by
      refine toList_put_of_lt fun b hb => ?_
      exact (List.pairwise_append.1 h).2.2 b hb e List.mem_cons_self
    have hsplit : (c.put e.1 e.2).toList ++ es = c.toList ++ e :: es := by
      rw [hlast, List.append_assoc, List.singleton_append]
    rw [List.foldl_cons, ih (hsplit ▸ h), hsplit]

theorem Ordered.foldl_put {c : Dict} (h : c.Ordered) (es : List (Int64 × Value)) :
    (es.foldl (fun c e => c.put e.1 e.2) c).Ordered := by
  induction es generalizing c with
  | nil => exact h
  | cons e es ih => exact ih (h.put e.1 e.2)

theorem ordered_copy (d : Dict) : d.copy.Ordered := Ordered.empty.foldl_put d.toList

/-- **A copy of an ordered dictionary is the dictionary.** -/
theorem Ordered.copy_eq (h : d.Ordered) : d.copy = d := by
  refine toList_inj.1 ?_
  exact toList_foldl_put (c := Dict.empty) h

theorem mem_toList_foldl_put {es : List (Int64 × Value)} {c : Dict} {b : Int64 × Value}
    (h : b ∈ (es.foldl (fun c e => c.put e.1 e.2) c).toList) : b ∈ es ∨ b ∈ c.toList := by
  induction es generalizing c with
  | nil => exact .inr h
  | cons e es ih =>
    rcases ih h with hes | hc
    · exact .inl (List.mem_cons_of_mem _ hes)
    · rcases mem_toList_put hc with rfl | hc
      · exact .inl List.mem_cons_self
      · exact .inr hc

theorem mem_toList_of_copy {b : Int64 × Value} (h : b ∈ d.copy.toList) : b ∈ d.toList :=
  (mem_toList_foldl_put h).resolve_right List.not_mem_nil

/-! ## Operations -/

theorem ordered_insert (key : Int64) (value : Value) (d : Dict) : (d.insert key value).Ordered :=
  (ordered_copy d).put key value

theorem ordered_erase (key : Int64) (d : Dict) : (d.erase key).Ordered :=
  (ordered_copy d).remove key

theorem mem_toList_insert {b : Int64 × Value} (h : b ∈ (d.insert key value).toList) :
    b = (key, value) ∨ b ∈ d.toList :=
  (mem_toList_put h).imp id mem_toList_of_copy

theorem mem_toList_of_erase {b : Int64 × Value} (h : b ∈ (d.erase key).toList) : b ∈ d.toList :=
  mem_toList_of_copy ((remove_sublist key d.copy).mem h)

theorem get?_insert_self (key : Int64) (value : Value) (d : Dict) :
    (d.insert key value).get? key = some value :=
  get?_put_self key value d.copy

theorem get?_insert_of_ne (hd : d.Ordered) (h : k ≠ key) :
    (d.insert key value).get? k = d.get? k := by
  rw [insert, get?_put_of_ne h, hd.copy_eq]

theorem get?_erase_self (key : Int64) (d : Dict) : (d.erase key).get? key = none :=
  (ordered_copy d).get?_remove_self key

theorem get?_erase_of_ne (hd : d.Ordered) (h : k ≠ key) : (d.erase key).get? k = d.get? k := by
  rw [erase, get?_remove_of_ne h, hd.copy_eq]

end Dict

/-! ## Values that are made -/

mutual

/-- The value is built from integers, truth values, pairs and dictionaries that are made. -/
inductive Value.Made : Value → Prop where
  | int (n) : Value.Made (.int n)
  | bool (b) : Value.Made (.bool b)
  | pair {x y} : Value.Made x → Value.Made y → Value.Made (.pair x y)
  | dict {d} : Dict.Made d → Value.Made (.dict d)

/-- The dictionary comes from the empty one by operations with values that are made. -/
inductive Dict.Made : Dict → Prop where
  | empty : Dict.Made .empty
  | insert (k) {v d} : Dict.Made d → Value.Made v → Dict.Made (d.insert k v)
  | erase (k) {d} : Dict.Made d → Dict.Made (d.erase k)

end

namespace Dict.Made

variable {d : Dict}

theorem ordered (h : d.Made) : d.Ordered := by
  cases h with
  | empty => exact .empty
  | insert k _ _ => exact ordered_insert k _ _
  | erase k _ => exact ordered_erase k _

/-- What is made holds values that are made. -/
theorem values : ∀ {d : Dict}, d.Made → ∀ b ∈ d.toList, b.2.Made
  | _, .empty => fun _ hb => absurd hb not_mem_toList_empty
  | _, .insert k hd hv => fun b hb => by
    rcases mem_toList_insert hb with rfl | hb
    · exact hv
    · exact hd.values b hb
  | _, .erase k hd => fun b hb => hd.values b (mem_toList_of_erase hb)

theorem get? (h : d.Made) {k : Int64} {v : Value} (hv : d.get? k = some v) : v.Made :=
  h.values _ (mem_toList_of_get? hv)

end Dict.Made

end PairDict
