import PairDict.Ty

/-! # Types are told apart by their text

The first character of a type's text tells how the type is built, and a closing bracket stands
behind what has components.  So the text of a type settles the type and where it ends, whatever
follows it.
-/
namespace PairDict.Ty

@[simp] theorem toList_text_int : int.text.toList = ['i', 'n', 't'] := rfl

@[simp] theorem toList_text_bool : bool.text.toList = ['b', 'o', 'o', 'l'] := rfl

@[simp] theorem toList_text_pair (x y : Ty) :
    (pair x y).text.toList = '(' :: (x.text.toList ++ ',' :: (y.text.toList ++ [')'])) := by
  simp only [text, String.toList_append, List.append_assoc]
  rfl

@[simp] theorem toList_text_dict (t : Ty) :
    (dict t).text.toList = '[' :: 'i' :: 'n' :: 't' :: ':' :: (t.text.toList ++ [']']) := by
  simp only [text, String.toList_append, List.append_assoc]
  rfl

/-- **The text of a type settles the type**, and where it ends. -/
theorem text_append_inj {t u : Ty} {r r' : List Char}
    (h : t.text.toList ++ r = u.text.toList ++ r') : t = u ∧ r = r' := by
  induction t generalizing u r r' with
  | int =>
    cases u with
    | int => exact ⟨rfl, List.append_cancel_left h⟩
    | _ => simp at h
  | bool =>
    cases u with
    | bool => exact ⟨rfl, List.append_cancel_left h⟩
    | _ => simp at h
  | pair x y ihx ihy =>
    cases u with
    | pair x' y' =>
      simp only [toList_text_pair, List.cons_append, List.append_assoc, List.cons.injEq,
        true_and] at h
      obtain ⟨rfl, hy⟩ := ihx h
      obtain ⟨rfl, hrest⟩ := ihy (List.cons.inj hy).2
      exact ⟨rfl, (List.cons.inj hrest).2⟩
    | _ => simp at h
  | dict t ih =>
    cases u with
    | dict u =>
      simp only [toList_text_dict, List.cons_append, List.append_assoc, List.cons.injEq,
        true_and] at h
      obtain ⟨rfl, hrest⟩ := ih h
      exact ⟨rfl, (List.cons.inj hrest).2⟩
    | _ => simp at h

end PairDict.Ty
