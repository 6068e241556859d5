import PairDict.Proofs.Text.Numeral
import PairDict.Proofs.Value.Ordered

/-! # Values are equal if they are printed alike

The text of a value settles the value, and where it ends, as long as what follows does not go on
like an integer (`Value.text_append_inj`): its first character tells what kind of value it is
(`Value.kindOf`), and behind an entry of a dictionary a comma tells that there is another.

Two dictionaries are compared by their sizes and by looking the keys of the one up in the
other.  On values that are made this comes to being the same value (`Value.equal_iff_eq`),
since then the entries of a dictionary are in order, and no key has two of them.
-/
namespace PairDict

open Numeral

/-! ## Texts -/

namespace Value

theorem toList_text_pair (x y : Value) :
    (pair x y).text.toList = '(' :: (x.text.toList ++ ',' :: (y.text.toList ++ [')'])) := by
  simp only [text, String.toList_append, List.append_assoc]
  rfl

theorem toList_text_nil : (dict .nil).text.toList = ['[', ']'] := rfl

theorem toList_text_cons (k : Int64) (v : Value) (rest : Dict) :
    (dict (.cons k v rest)).text.toList =
      '[' :: ((toString k.toInt).toList ++ ':' :: (v.text.toList ++
        (rest.textAfter.toList ++ [']']))) := by
  simp only [text, String.toList_append, List.append_assoc]
  rfl

theorem toList_text_bool (b : Bool) :
    (bool b).text.toList = if b then ['t', 'r', 'u', 'e'] else ['f', 'a', 'l', 's', 'e'] := by
  cases b <;> rfl

end Value

namespace Dict

theorem toList_textAfter_cons (k : Int64) (v : Value) (rest : Dict) :
    (Dict.cons k v rest).textAfter.toList =
      ',' :: ((toString k.toInt).toList ++ ':' :: (v.text.toList ++ rest.textAfter.toList)) := by
  simp only [textAfter, String.toList_append, List.append_assoc]
  rfl

/-- Whether or not there are more entries, what follows a value is no part of an integer. -/
theorem ends_textAfter (d : Dict) (r : List Char) : Ends (d.textAfter.toList ++ ']' :: r) := by
  cases d with
  | nil => exact ends_cons (by decide) r
  | cons k v rest =>
    rw [toList_textAfter_cons]
    exact ends_cons (by decide) _

end Dict

namespace Value

/-- The kind of the value whose text starts with a character. -/
def kindOf (c : Char) : Kind :=
  if c = '(' then .pair
  else if c = '[' then .dictionary
  else if c = 't' || c = 'f' then .bool
  else .int

theorem kindOf_inInt {c : Char} (h : inInt c = true) : kindOf c = .int := by
  have hne : ∀ d, inInt d = false → c ≠ d := by
    rintro d hd rfl
    rw [h] at hd
    cases hd
  rw [kindOf, if_neg (hne _ (by decide)), if_neg (hne _ (by decide)), if_neg]
  rw [Bool.or_eq_true, decide_eq_true_eq, decide_eq_true_eq, not_or]
  exact ⟨hne _ (by decide), hne _ (by decide)⟩

/-- The first character of a text tells the kind of the value. -/
theorem kindOf_text (v : Value) : ∃ c cs, v.text.toList = c :: cs ∧ kindOf c = v.kind := by
  cases v with
  | int n =>
    obtain ⟨c, cs, hn, hc⟩ := toString_int_front n.toInt
    exact ⟨c, cs, hn, kindOf_inInt hc⟩
  | bool b =>
    rw [toList_text_bool]
    cases b with
    | true => exact ⟨_, _, rfl, rfl⟩
    | false => exact ⟨_, _, rfl, rfl⟩
  | pair x y =>
    rw [toList_text_pair]
    exact ⟨_, _, rfl, rfl⟩
  | dict d =>
    cases d with
    | nil => exact ⟨_, _, rfl, rfl⟩
    | cons k v rest =>
      rw [toList_text_cons]
      exact ⟨_, _, rfl, rfl⟩

theorem kind_eq {v w : Value} {r r' : List Char}
    (h : v.text.toList ++ r = w.text.toList ++ r') : v.kind = w.kind := by
  obtain ⟨c, cs, hc, hkind⟩ := kindOf_text v
  obtain ⟨c', cs', hc', hkind'⟩ := kindOf_text w
  rw [hc, hc'] at h
  rw [← hkind, ← hkind', (List.cons.inj h).1]

end Value

mutual

/-- **The text of a value settles the value and where it ends.** -/
theorem Value.text_append_inj {r r' : List Char} (hr : Ends r) (hr' : Ends r') :
    ∀ v w : Value, v.text.toList ++ r = w.text.toList ++ r' → v = w ∧ r = r'
  | .int n => by
    intro w h
    cases w with
    | int n' =>
      obtain ⟨hn, hrest⟩ := toString_int_append_inj hr hr' h
      exact ⟨congrArg Value.int (Int64.toInt_inj.1 hn), hrest⟩
    | _ => cases Value.kind_eq h
  | .bool b => by
    intro w h
    cases w with
    | bool b' =>
      rw [Value.toList_text_bool, Value.toList_text_bool] at h
      cases b with
      | true =>
        cases b' with
        | true => exact ⟨rfl, List.append_cancel_left h⟩
        | false => cases h
      | false =>
        cases b' with
        | true => cases h
        | false => exact ⟨rfl, List.append_cancel_left h⟩
    | _ => cases Value.kind_eq h
  | .pair x y => by
    intro w h
    cases w with
    | pair x' y' =>
      rw [Value.toList_text_pair, Value.toList_text_pair] at h
      simp only [List.cons_append, List.append_assoc, List.nil_append, List.cons.injEq,
        true_and] at h
      -- a comma or a parenthesis stands behind each component, so an integer ends there
      obtain ⟨rfl, hy⟩ :=
        Value.text_append_inj (ends_cons (by decide) _) (ends_cons (by decide) _) x x' h
      obtain ⟨rfl, hrest⟩ := Value.text_append_inj (ends_cons (by decide) _)
        (ends_cons (by decide) _) y y' (List.cons.inj hy).2
      exact ⟨rfl, (List.cons.inj hrest).2⟩
    | _ => cases Value.kind_eq h
  | .dict .nil => by
    intro w h
    cases w with
    | dict d' =>
      rw [Value.toList_text_nil] at h
      cases d' with
      | nil => exact ⟨rfl, List.append_cancel_left h⟩
      | cons k' v' rest' =>
        -- a key would have to start with the closing bracket
        obtain ⟨c, cs, hk, hc⟩ := toString_int_front k'.toInt
        rw [Value.toList_text_cons, hk] at h
        have hfront : ']' = c := (List.cons.inj (List.cons.inj h).2).1
        rw [← hfront] at hc
        cases hc
    | _ => cases Value.kind_eq h
  | .dict (.cons k v rest) => by
    intro w h
    cases w with
    | dict d' =>
      rw [Value.toList_text_cons] at h
      cases d' with
      | nil =>
        obtain ⟨c, cs, hk, hc⟩ := toString_int_front k.toInt
        rw [Value.toList_text_nil, hk] at h
        have hfront : c = ']' := (List.cons.inj (List.cons.inj h).2).1
        rw [hfront] at hc
        cases hc
      | cons k' v' rest' =>
        rw [Value.toList_text_cons] at h
        simp only [List.cons_append, List.append_assoc, List.nil_append, List.cons.injEq,
          true_and] at h
        obtain ⟨hk, hv⟩ :=
          toString_int_append_inj (ends_cons (by decide) _) (ends_cons (by decide) _) h
        obtain ⟨rfl, hafter⟩ := Value.text_append_inj (Dict.ends_textAfter rest r)
          (Dict.ends_textAfter rest' r') v v' (List.cons.inj hv).2
        obtain ⟨rfl, hrest⟩ := Dict.textAfter_append_inj rest rest' hafter
        rw [Int64.toInt_inj.1 hk]
        exact ⟨rfl, hrest⟩
    | _ => cases Value.kind_eq h

/-- The entries after the first are settled by their text, up to the closing bracket. -/
theorem Dict.textAfter_append_inj {r r' : List Char} : ∀ d d' : Dict,
    d.textAfter.toList ++ ']' :: r = d'.textAfter.toList ++ ']' :: r' → d = d' ∧ r = r'
  | .nil => by
    intro d' h
    cases d' with
    | nil => exact ⟨rfl, (List.cons.inj h).2⟩
    | cons k' v' rest' =>
      rw [Dict.toList_textAfter_cons] at h
      cases h
  | .cons k v rest => by
    intro d' h
    rw [Dict.toList_textAfter_cons] at h
    cases d' with
    | nil => cases h
    | cons k' v' rest' =>
      rw [Dict.toList_textAfter_cons] at h
      simp only [List.cons_append, List.append_assoc, List.cons.injEq, true_and] at h
      obtain ⟨hk, hv⟩ :=
        toString_int_append_inj (ends_cons (by decide) _) (ends_cons (by decide) _) h
      obtain ⟨rfl, hafter⟩ := Value.text_append_inj (Dict.ends_textAfter rest r)
        (Dict.ends_textAfter rest' r') v v' (List.cons.inj hv).2
      obtain ⟨rfl, hrest⟩ := Dict.textAfter_append_inj rest rest' hafter
      rw [Int64.toInt_inj.1 hk]
      exact ⟨rfl, hrest⟩

end

/-- **Values with the same text are the same.** -/
theorem Value.eq_of_text_eq {v w : Value} (h : v.text = w.text) : v = w := by
  have hends : Ends [] := nofun
  have hchars : v.text.toList ++ [] = w.text.toList ++ [] := by rw [h]
  exact (Value.text_append_inj hends hends v w hchars).1

/-! ## Equality -/

mutual

/-- **Values that are made are equal if they are the same.** -/
theorem Value.equal_iff_eq : ∀ {v w : Value}, v.Made → w.Made → (v.equal w = true ↔ v = w)
  | .int m, w, _, _ => by
    cases w with
    | int n => rw [Value.equal, beq_iff_eq, Value.int.injEq]
    | _ => exact iff_of_false nofun nofun
  | .bool a, w, _, _ => by
    cases w with
    | bool b => rw [Value.equal, beq_iff_eq, Value.bool.injEq]
    | _ => exact iff_of_false nofun nofun
  | .pair x y, w, .pair hx hy, hw => by
    cases w with
    | pair x' y' =>
      obtain _ | _ | ⟨hx', hy'⟩ := hw
      rw [Value.equal, Bool.and_eq_true, Value.equal_iff_eq hx hx', Value.equal_iff_eq hy hy',
        Value.pair.injEq]
    | _ => exact iff_of_false nofun nofun
  | .dict d, w, .dict hd, hw => by
    cases w with
    | dict d' =>
      obtain _ | _ | _ | hd' := hw
      rw [Value.equal, Bool.and_eq_true, beq_iff_eq, Dict.foundIn_iff hd.values hd'.values,
        Value.dict.injEq]
      constructor
      · rintro ⟨hsize, hfound⟩
        exact hd.ordered.eq_of_subset hd'.ordered hsize fun b hb =>
          Dict.mem_toList_of_get? (hfound b hb)
      · rintro rfl
        exact ⟨rfl, fun b hb => hd.ordered.mem_toList_iff.1 hb⟩
    | _ => exact iff_of_false nofun nofun

/-- Entries that are made are found where the same entries are. -/
theorem Dict.foundIn_iff : ∀ {d d' : Dict}, (∀ b ∈ d.toList, b.2.Made) →
    (∀ b ∈ d'.toList, b.2.Made) →
    (d.foundIn d' = true ↔ ∀ b ∈ d.toList, d'.get? b.1 = some b.2)
  | .nil, d', _, _ => iff_of_true rfl nofun
  | .cons k v rest, d', hd, hd' => by
    rw [Dict.toList_cons, List.forall_mem_cons] at hd ⊢
    have hfound : (d'.get? k).any (fun w => v.equal w) = true ↔ d'.get? k = some v := by
      rw [Option.any_eq_true]
      constructor
      · rintro ⟨w, hw, heq⟩
        have hvw : v = w :=
          (Value.equal_iff_eq hd.1 (hd' _ (Dict.mem_toList_of_get? hw))).1 heq
        rw [hvw]
        exact hw
      · intro hv
        exact ⟨v, hv, (Value.equal_iff_eq hd.1 hd.1).2 rfl⟩
    rw [Dict.foundIn, Bool.and_eq_true, hfound, Dict.foundIn_iff hd.2 hd']

end

/-- **Values are equal if and only if they are printed alike.**  So being equal is an
equivalence; values of different kinds are never printed alike; and dictionaries in which every
key has the same value are equal and printed alike, however they came about. -/
theorem Value.equality_is_printed :
    (∀ v w : Value, v.Made → w.Made → (v.equal w = true ↔ v.text = w.text)) ∧
    (Equivalence fun v w : { v : Value // v.Made } => v.val.equal w.val = true) ∧
    (∀ v w : Value, v.kind ≠ w.kind → v.text ≠ w.text) ∧
    ∀ d d' : Dict, d.Made → d'.Made → (∀ k, d.get? k = d'.get? k) →
      (Value.dict d).equal (.dict d') = true ∧ (Value.dict d).text = (Value.dict d').text := by
  refine ⟨fun v w hv hw => ?_, ⟨fun v => ?_, fun {v w} h => ?_, fun {u v w} h h' => ?_⟩,
    fun v w hkind htext => ?_, fun d d' hd hd' hget => ?_⟩
  · rw [Value.equal_iff_eq hv hw]
    exact ⟨congrArg text, eq_of_text_eq⟩
  · exact (Value.equal_iff_eq v.property v.property).2 rfl
  · rw [Value.equal_iff_eq v.property w.property] at h
    rw [Value.equal_iff_eq w.property v.property, h]
  · rw [Value.equal_iff_eq u.property v.property] at h
    rw [Value.equal_iff_eq v.property w.property] at h'
    rw [Value.equal_iff_eq u.property w.property, h, h']
  · exact hkind (congrArg kind (eq_of_text_eq htext))
  · obtain rfl := hd.ordered.ext hd'.ordered hget
    exact ⟨(Value.equal_iff_eq (.dict hd) (.dict hd)).2 rfl, rfl⟩

/-- A dictionary with a negative key and a nested one is rebuilt the other way round, over an
entry that is replaced and one that is dropped. -/
theorem Value.equality_is_printed_rebuilt :
    let once := (Dict.empty.insert 1 (.bool true)).insert (-2) (.pair (.int 3) (.dict .empty))
    let again := ((((Dict.empty.insert (-2) (.int 0)).insert 7 (.int 7)).insert (-2)
      (.pair (.int 3) (.dict .empty))).erase 7).insert 1 (.bool true)
    (Value.dict once).equal (.dict again) = true ∧
      (Value.dict once).text = (Value.dict again).text := by
  intro once again
  have hpair : (Value.pair (.int 3) (.dict .empty)).Made := .pair (.int 3) (.dict .empty)
  have honce : once.Made := .insert (-2) (.insert 1 .empty (.bool true)) hpair
  have hagain : again.Made :=
    .insert 1 (.erase 7 (.insert (-2) (.insert 7 (.insert (-2) .empty (.int 0)) (.int 7)) hpair))
      (.bool true)
  exact Value.equality_is_printed.2.2.2 once again honce hagain fun k => rfl

end PairDict
