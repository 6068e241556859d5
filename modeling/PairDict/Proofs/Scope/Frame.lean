import PairDict.Scope

/-! # The bindings of a frame

A frame is read from its front: `get?` finds the first binding of a name, and `set` changes
every binding of it, of which a frame that was built by declarations has one at most.  What
a frame does not bind, it does not find (`get?_eq_none_iff`), and setting it changes nothing
(`set_eq_self`).
-/
namespace PairDict

namespace Frame

variable {β : Type} {f : Frame β} {x : String}

theorem get?_eq_none_iff : f.get? x = none ↔ x ∉ f.names := by
  simp only [get?, names, List.lookup_eq_none_iff, List.mem_map, not_exists, not_and]
  constructor
  · intro h b hb hx
    exact absurd (beq_iff_eq.2 hx.symm) (by simpa using h b hb)
  · intro h b hb
    simpa using fun hx : x = b.1 => h b hb hx.symm

@[simp] theorem names_cons (y : String) (v : β) (f : Frame β) : names ((y, v) :: f) = y :: f.names :=
  rfl

@[simp] theorem get?_cons_self (v : β) : get? ((x, v) :: f) x = some v := by simp [get?]

@[simp] theorem get?_cons_of_ne {y : String} {v : β} (h : x ≠ y) :
    get? ((y, v) :: f) x = f.get? x := by
  have hne : (x == y) = false := beq_false_of_ne h
  simp [get?, List.lookup_cons, hne]

theorem set_cons_self (v w : β) : set ((x, w) :: f) x v = (x, v) :: f.set x v := by
  simp [set]

theorem set_cons_of_ne {y : String} {v w : β} (h : x ≠ y) :
    set ((y, w) :: f) x v = (y, w) :: f.set x v := by
  simp [set, h.symm]

/-- Setting a name that a frame does not bind changes nothing. -/
theorem set_eq_self {v : β} (h : x ∉ f.names) : f.set x v = f := by
  induction f with
  | nil => rfl
  | cons b f ih =>
    obtain ⟨y, w⟩ := b
    rw [names_cons, List.mem_cons, not_or] at h
    rw [set_cons_of_ne h.1, ih h.2]

end Frame

end PairDict
