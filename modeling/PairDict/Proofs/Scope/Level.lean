import PairDict.Proofs.Scope.Frame

/-! # How a scope may change

Frames come and go at the inside of a scope.  So a frame is told by its **level**, the number
of frames around it, which stays what it is as long as the frame lives.  `valueAt i x` is what
the frame at level `i` binds `x` to, and `home x` is the level at which `x` is found when it
is looked up from the inside.

`Scope.Changes vars written s s'` says what the step from the scope `s` to the scope `s'` has
kept:

* the frames around the innermost one bind the names that they bound;
* the innermost one binds these too, and besides only names from `vars`;
* a frame that binds `x` at level `i` binds it to the same value, unless `written i x`.

It holds of declarations and of updates (`Changes.declare`, `Changes.update`), of one step
after another (`Changes.trans`), and of what runs in a frame of its own: if the scope has
changed like this inside the frame, then the frame can be closed, and the scope around it has
changed like this too (`Changes.framed`).
-/
namespace PairDict

variable {β : Type}

namespace Frame

theorem get?_eq_some_iff_mem {f : Frame β} {x : String} :
    (∃ v, f.get? x = some v) ↔ x ∈ f.names := by
  by_cases hx : x ∈ f.names
  · cases hv : f.get? x with
    | none => exact absurd hx (get?_eq_none_iff.1 hv)
    | some v => exact ⟨fun _ => hx, fun _ => ⟨v, rfl⟩⟩
  · rw [get?_eq_none_iff.2 hx]
    exact ⟨nofun, fun h => absurd h hx⟩

@[simp] theorem names_set (f : Frame β) (x : String) (v : β) : (f.set x v).names = f.names := by
  induction f with
  | nil => rfl
  | cons b f ih =>
    obtain ⟨y, w⟩ := b
    by_cases hxy : x = y
    · subst hxy
      rw [set_cons_self, names_cons, names_cons, ih]
    · rw [set_cons_of_ne hxy, names_cons, names_cons, ih]

theorem get?_set_of_ne {f : Frame β} {x y : String} {v : β} (h : y ≠ x) :
    (f.set x v).get? y = f.get? y := by
  induction f with
  | nil => rfl
  | cons b f ih =>
    obtain ⟨z, w⟩ := b
    by_cases hxz : x = z
    · subst hxz
      rw [set_cons_self, get?_cons_of_ne h, get?_cons_of_ne h, ih]
    · rw [set_cons_of_ne hxz]
      by_cases hyz : y = z
      · subst hyz
        rw [get?_cons_self, get?_cons_self]
      · rw [get?_cons_of_ne hyz, get?_cons_of_ne hyz, ih]

theorem get?_set_self {f : Frame β} {x : String} (v : β) (h : x ∈ f.names) :
    (f.set x v).get? x = some v := by
  induction f with
  | nil => cases h
  | cons b f ih =>
    obtain ⟨z, w⟩ := b
    by_cases hxz : x = z
    · subst hxz
      rw [set_cons_self, get?_cons_self]
    · rw [set_cons_of_ne hxz, get?_cons_of_ne hxz]
      rw [names_cons, List.mem_cons] at h
      exact ih (h.resolve_left hxz)

end Frame

namespace Scope

/-! ## Levels -/

/-- What the frame at a level binds a name to.  The outermost frame of a stack is at level
zero. -/
def valueAt (i : Nat) (x : String) : List (Frame β) → Option β
  | [] => none
  | f :: fs => if fs.length = i then f.get? x else valueAt i x fs

/-- The level of the innermost frame that binds a name. -/
def home (x : String) : List (Frame β) → Option Nat
  | [] => none
  | f :: fs => if (f.get? x).isSome then some fs.length else home x fs

variable {fs fs' : List (Frame β)} {f : Frame β} {i : Nat} {x y : String} {v : β}

theorem valueAt_cons_self : valueAt fs.length x (f :: fs) = f.get? x := by
  rw [valueAt, if_pos rfl]

theorem valueAt_cons_of_ne (h : i ≠ fs.length) : valueAt i x (f :: fs) = valueAt i x fs := by
  rw [valueAt, if_neg h.symm]

/-- There is a frame at the level of a binding. -/
theorem lt_of_valueAt (h : valueAt i x fs = some v) : i < fs.length := by
  induction fs with
  | nil => cases h
  | cons f fs ih =>
    by_cases hi : i = fs.length
    · rw [List.length_cons]
      omega
    · rw [valueAt_cons_of_ne hi] at h
      exact Nat.lt_succ_of_lt (ih h)

theorem home_cons_of_mem (h : x ∈ f.names) : home x (f :: fs) = some fs.length := by
  obtain ⟨w, hw⟩ := Frame.get?_eq_some_iff_mem.2 h
  rw [home, hw]
  rfl

/-- An update looks at the innermost frame apart, to the same effect as for a stack. -/
theorem updateFrames_of_update {s s' : Scope β} (h : s.update x v = .ok s') :
    updateFrames x v s.frames = some s'.frames := by
  unfold update at h
  rw [frames, updateFrames]
  cases hx : s.inner.get? x with
  | some w =>
    rw [hx] at h
    cases h
    rfl
  | none =>
    rw [hx] at h
    cases hfs : updateFrames x v s.outer with
    | none =>
      rw [hfs] at h
      cases h
    | some fs =>
      rw [hfs] at h
      cases h
      rfl

/-! ## What is kept -/

/-- What the step from the scope `s` to the scope `s'` has kept, where it may have declared
`vars` and have rebound the names at the levels that `written` says. -/
structure Changes (vars : List String) (written : Nat → String → Prop) (s s' : Scope β) :
    Prop where
  /-- The frames around the innermost one bind the names that they bound. -/
  outer : s'.outer.map Frame.names = s.outer.map Frame.names
  /-- The innermost frame binds the names that it bound, and some of `vars`. -/
  inner : ∃ new, s'.inner.names = new ++ s.inner.names ∧ ∀ x ∈ new, x ∈ vars
  /-- What was not written is bound as it was. -/
  kept : ∀ i x v, valueAt i x s.frames = some v → valueAt i x s'.frames = some v ∨ written i x

namespace Changes

variable {vars vars' : List String} {written written' : Nat → String → Prop}
  {s s' s'' : Scope β}

theorem refl (vars : List String) (written : Nat → String → Prop) (s : Scope β) :
    Changes vars written s s :=
  ⟨rfl, ⟨[], rfl, nofun⟩, fun _ _ _ h => .inl h⟩

theorem mono (h : Changes vars written s s') (hvars : ∀ x ∈ vars, x ∈ vars')
    (hwritten : ∀ i x, written i x → written' i x) : Changes vars' written' s s' := by
  obtain ⟨new, hnames, hnew⟩ := h.inner
  exact ⟨h.outer, ⟨new, hnames, fun x hx => hvars x (hnew x hx)⟩,
    fun i x v hv => (h.kept i x v hv).imp id (hwritten i x)⟩

/-- One step after another. -/
theorem trans (h : Changes vars written s s') (h' : Changes vars written s' s'') :
    Changes vars written s s'' := by
  obtain ⟨new, hnames, hnew⟩ := h.inner
  obtain ⟨new', hnames', hnew'⟩ := h'.inner
  refine ⟨h'.outer.trans h.outer, ⟨new' ++ new, ?_, ?_⟩, ?_⟩
  · rw [hnames', hnames, List.append_assoc]
  · intro x hx
    exact (List.mem_append.1 hx).elim (hnew' x) (hnew x)
  · intro i x v hv
    rcases h.kept i x v hv with hv' | hw
    · exact h'.kept i x v hv'
    · exact .inr hw

/-- There are as many frames as there were. -/
theorem length_outer (h : Changes vars written s s') : s'.outer.length = s.outer.length := by
  simpa using congrArg List.length h.outer

/-- The innermost frame loses no name. -/
theorem mem_inner (h : Changes vars written s s') (hx : x ∈ s.inner.names) :
    x ∈ s'.inner.names := by
  obtain ⟨new, hnames, -⟩ := h.inner
  rw [hnames]
  exact List.mem_append_right _ hx

/-- No names are gained if there are none to declare. -/
theorem inner_eq (h : Changes [] written s s') : s'.inner.names = s.inner.names := by
  obtain ⟨new, hnames, hnew⟩ := h.inner
  have hnil : new = [] := List.eq_nil_iff_forall_not_mem.2 fun x hx => nomatch hnew x hx
  rw [hnames, hnil, List.nil_append]

theorem declare (h : s.declare x v = .ok s') : Changes [x] (fun _ _ => False) s s' := by
  unfold Scope.declare at h
  cases hx : s.inner.get? x with
  | some w =>
    rw [hx] at h
    cases h
  | none =>
    rw [hx] at h
    cases h
    refine ⟨rfl, ⟨[x], rfl, fun _ h => h⟩, ?_⟩
    intro i y w hw
    refine .inl ?_
    by_cases hi : i = s.outer.length
    · subst hi
      -- the new name was bound to nothing in the innermost frame, so `y` is another one
      have hinner : s.inner.get? y = some w := by rwa [frames, valueAt_cons_self] at hw
      have hyx : y ≠ x := by
        rintro rfl
        rw [hx] at hinner
        cases hinner
      rw [frames, valueAt_cons_self, Frame.get?_cons_of_ne hyx, hinner]
    · rw [frames, valueAt_cons_of_ne hi] at hw ⊢
      exact hw

/-- What an update leaves of a stack: only the binding that is found from the inside is
another. -/
theorem updateFrames (h : Scope.updateFrames x v fs = some fs') :
    ∃ i, home x fs = some i ∧ fs'.map Frame.names = fs.map Frame.names ∧
      ∀ j y w, valueAt j y fs = some w → valueAt j y fs' = some w ∨ (j = i ∧ y = x) := by
  induction fs generalizing fs' with
  | nil => cases h
  | cons f fs ih =>
    rw [Scope.updateFrames] at h
    cases hx : f.get? x with
    | some u =>
      rw [hx] at h
      cases h
      refine ⟨fs.length, home_cons_of_mem (Frame.get?_eq_some_iff_mem.1 ⟨u, hx⟩), ?_, ?_⟩
      · rw [List.map_cons, List.map_cons, Frame.names_set]
      · intro j y w hw
        by_cases hj : j = fs.length
        · subst hj
          rw [valueAt_cons_self] at hw ⊢
          by_cases hyx : y = x
          · exact .inr ⟨rfl, hyx⟩
          · exact .inl ((Frame.get?_set_of_ne hyx).trans hw)
        · rw [valueAt_cons_of_ne hj] at hw ⊢
          exact .inl hw
    | none =>
      rw [hx] at h
      obtain ⟨gs, hgs, rfl⟩ := Option.map_eq_some_iff.1 h
      obtain ⟨i, hhome, hnames, hkept⟩ := ih hgs
      have hlength : gs.length = fs.length := by simpa using congrArg List.length hnames
      refine ⟨i, ?_, ?_, ?_⟩
      · rw [home, hx]
        exact hhome
      · rw [List.map_cons, List.map_cons, hnames]
      · intro j y w hw
        rw [valueAt, hlength]
        rw [valueAt] at hw
        split
        · rw [if_pos ‹_›] at hw
          exact .inl hw
        · rw [if_neg ‹_›] at hw
          exact hkept j y w hw

theorem update (h : s.update x v = .ok s') :
    ∃ i, home x s.frames = some i ∧ Changes [] (fun j y => j = i ∧ y = x) s s' := by
  obtain ⟨i, hhome, hnames, hkept⟩ := updateFrames (updateFrames_of_update h)
  obtain ⟨hinner, houter⟩ := List.cons.inj hnames
  exact ⟨i, hhome, houter, ⟨[], hinner, nofun⟩, hkept⟩

/-- **A frame of its own.**  It can be closed, and what is around it has changed as inside. -/
theorem framed (h : Changes vars written s.enter s') :
    ∃ t, s'.leave? = some t ∧ Changes [] (fun i x => i < s.depth ∧ written i x) s t := by
  obtain ⟨f, outer⟩ := s'
  have hnames : outer.map Frame.names = s.frames.map Frame.names := h.outer
  cases outer with
  | nil => cases hnames
  | cons g gs =>
    obtain ⟨hinner, houter⟩ := List.cons.inj hnames
    have hlength : gs.length = s.outer.length := by simpa using congrArg List.length houter
    refine ⟨⟨g, gs⟩, rfl, houter, ⟨[], hinner, nofun⟩, ?_⟩
    intro i x v hv
    have hi : i < s.outer.length + 1 := lt_of_valueAt hv
    have henter : valueAt i x s.enter.frames = some v := by
      rw [enter, frames, valueAt_cons_of_ne (Nat.ne_of_lt hi)]
      exact hv
    rcases h.kept i x v henter with hv' | hw
    · refine .inl ?_
      have hne : i ≠ (g :: gs).length := by
        rw [List.length_cons, hlength]
        exact Nat.ne_of_lt hi
      rwa [frames, valueAt_cons_of_ne hne] at hv'
    · exact .inr ⟨hi, hw⟩

end Changes

end Scope

end PairDict
