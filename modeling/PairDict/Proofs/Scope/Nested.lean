import PairDict.Proofs.Scope.Level

/-! # A scope over its history

Calls are **balanced** if they close every frame that they open, and no other (`Balanced`).
So an `enter` is matched when the calls after it are balanced up to a `leave`, and what a
history leaves open are the frames of its unmatched ones: there is one frame more than these
(`depth_after`).

A balanced segment between an `enter` and its `leave` works in front of the frames that were
there before.  What it does to them is in its updates alone, and of these in the ones that
come while no frame of the segment binds the name: they **reach** the binding outside
(`reaching`).  The binding is overwritten with their values, one after another, and nothing
else changes what a name means around the segment (`lookup_after_segment`).

`Lexical` says of a scope how it answers each call, which calls change nothing, and what a
segment does to it.  It is true after any history (`lexical_after`).
-/
namespace PairDict.Scope

variable {β : Type}

/-! ## Matched calls -/

/-- Calls that close every frame which they open, and no other. -/
inductive Balanced : List (Call β) → Prop where
  | nil : Balanced []
  | cons {c calls} : c ≠ .enter → c ≠ .leave → Balanced calls → Balanced (c :: calls)
  | framed {inside calls} : Balanced inside → Balanced calls →
      Balanced (.enter :: (inside ++ .leave :: calls))

/-- Calls that close a frame which was opened right before them. -/
def Closing (calls : List (Call β)) : Prop :=
  ∃ inside rest, calls = inside ++ .leave :: rest ∧ Balanced inside

/-- How many of the frames that were open before these calls close, if there are so many.  The
first `leave` that is left over by the calls after an `enter` closes the frame of this one. -/
def closings : List (Call β) → Nat
  | [] => 0
  | .enter :: calls => closings calls - 1
  | .leave :: calls => closings calls + 1
  | _ :: calls => closings calls

variable {calls inside : List (Call β)} {c : Call β}

theorem closings_cons (hc : c ≠ .enter) (hc' : c ≠ .leave) (calls : List (Call β)) :
    closings (c :: calls) = closings calls := by
  cases c with
  | enter => exact absurd rfl hc
  | leave => exact absurd rfl hc'
  | _ => rfl

theorem Balanced.closings_append (h : Balanced inside) (calls : List (Call β)) :
    closings (inside ++ calls) = closings calls := by
  induction h generalizing calls with
  | nil => rfl
  | cons hc hc' _ ih =>
    rw [List.cons_append, closings_cons hc hc']
    exact ih calls
  | @framed inside more _ _ ih ih' =>
    have hinside : closings (inside ++ .leave :: (more ++ calls)) = closings (more ++ calls) + 1 :=
      ih _
    rw [List.cons_append, List.append_assoc, List.cons_append, closings, hinside, ih' calls]
    exact Nat.add_sub_cancel _ 1

/-- What comes before the next frame that is closed is balanced. -/
theorem exists_of_lt_closings {k : Nat} : ∀ calls : List (Call β), k < closings calls →
    ∃ inside rest, calls = inside ++ .leave :: rest ∧ Balanced inside ∧ k ≤ closings rest
  | [], h => absurd h (Nat.not_lt_zero k)
  | .leave :: calls, h => ⟨[], calls, rfl, .nil, Nat.le_of_lt_succ h⟩
  | .enter :: calls, h => by
    -- the frame that is opened here is closed first, and then the one to be closed
    obtain ⟨first, rest, hcalls, hfirst, hrest⟩ :=
      exists_of_lt_closings calls (Nat.add_lt_of_lt_sub h)
    have hlength : rest.length < (Call.enter :: calls).length := by
      rw [hcalls, List.length_cons, List.length_append, List.length_cons]
      omega
    obtain ⟨second, rest', rfl, hsecond, hrest'⟩ := exists_of_lt_closings rest hrest
    refine ⟨.enter :: (first ++ .leave :: second), rest', ?_, .framed hfirst hsecond, hrest'⟩
    rw [hcalls, List.cons_append, List.append_assoc, List.cons_append]
  | .declare _ _ :: calls, h | .update _ _ :: calls, h | .lookup _ :: calls, h => by
    obtain ⟨inside, rest, rfl, hinside, hrest⟩ := exists_of_lt_closings calls h
    exact ⟨_ :: inside, rest, rfl, .cons nofun nofun hinside, hrest⟩
termination_by calls => calls.length

theorem closing_iff : Closing calls ↔ 0 < closings calls := by
  constructor
  · rintro ⟨inside, rest, rfl, hinside⟩
    rw [hinside.closings_append]
    exact Nat.succ_pos _
  · intro h
    obtain ⟨inside, rest, hcalls, hinside, -⟩ := exists_of_lt_closings calls h
    exact ⟨inside, rest, hcalls, hinside⟩

instance : DecidablePred (@Closing β) := fun _ => decidable_of_iff _ closing_iff.symm

/-- How many frames calls open and leave open: one for each `enter` that is not matched. -/
def unmatched : List (Call β) → Nat
  | [] => 0
  | .enter :: calls => if Closing calls then unmatched calls else unmatched calls + 1
  | _ :: calls => unmatched calls

theorem unmatched_cons (hc : c ≠ .enter) (calls : List (Call β)) :
    unmatched (c :: calls) = unmatched calls := by
  cases c with
  | enter => exact absurd rfl hc
  | _ => rfl

/-! ## Single calls -/

theorem after_cons (s : Scope β) (c : Call β) (calls : List (Call β)) :
    s.after (c :: calls) = (s.call c).1.after calls := rfl

theorem after_append (s : Scope β) (calls more : List (Call β)) :
    s.after (calls ++ more) = (s.after calls).after more :=
  List.foldl_append

section Calls

variable {s t : Scope β} {fs own out : List (Frame β)} {x y : String} {v : β} {e : ScopeError}

theorem depth_pos (s : Scope β) : 0 < s.depth := Nat.succ_pos _

theorem leave?_eq_none_iff : s.leave? = none ↔ s.depth = 1 := by
  obtain ⟨f, outer⟩ := s
  cases outer with
  | nil => exact iff_of_true rfl rfl
  | cons g gs => exact iff_of_false nofun nofun

/-- What a stack binds a name to, by its innermost frame and the others. -/
theorem find?_cons (f : Frame β) (fs : List (Frame β)) :
    find? x (f :: fs) = (f.get? x).or (find? x fs) := by
  rw [find?, List.findSome?_cons]
  cases f.get? x <;> rfl

theorem find?_eq_none_iff : find? x fs = none ↔ ∀ f ∈ fs, x ∉ f.names := by
  simp only [find?, List.findSome?_eq_none_iff, Frame.get?_eq_none_iff]

theorem lookup_eq_error_iff :
    s.lookup x = .error e ↔ (∀ f ∈ s.frames, x ∉ f.names) ∧ e = .undeclared x := by
  rw [← find?_eq_none_iff, lookup]
  cases find? x s.frames <;> simp [eq_comm]

theorem declare_eq_error_iff :
    s.declare x v = .error e ↔ x ∈ s.inner.names ∧ e = .alreadyDeclared x := by
  rw [← Frame.get?_eq_some_iff_mem, declare]
  cases s.inner.get? x <;> simp [eq_comm]

theorem updateFrames_eq_none_iff : updateFrames x v fs = none ↔ ∀ f ∈ fs, x ∉ f.names := by
  induction fs with
  | nil => exact iff_of_true rfl (List.forall_mem_nil _)
  | cons f fs ih =>
    rw [List.forall_mem_cons, ← Frame.get?_eq_none_iff, updateFrames]
    cases f.get? x with
    | some w => simp only [reduceCtorEq, false_and]
    | none => rw [Option.map_eq_none_iff, ih, and_iff_right rfl]

/-- An update succeeds where there is a binding. -/
theorem update_eq_error_iff :
    s.update x v = .error e ↔ (∀ f ∈ s.frames, x ∉ f.names) ∧ e = .undeclared x := by
  rw [frames, List.forall_mem_cons, ← Frame.get?_eq_none_iff, ← updateFrames_eq_none_iff (v := v),
    update]
  cases s.inner.get? x with
  | some w => simp only [reduceCtorEq, false_and]
  | none => cases updateFrames x v s.outer <;> simp [eq_comm]

theorem change_failed_iff {r : Except ScopeError (Scope β)} :
    (s.change r).2 = .failed e ↔ r = .error e := by
  cases r <;> simp [change]

theorem frames_call_update (s : Scope β) (x : String) (v : β) :
    (s.call (.update x v)).1.frames = (updateFrames x v s.frames).getD s.frames := by
  rw [call]
  cases h : s.update x v with
  | ok t => rw [change, updateFrames_of_update h, Option.getD_some]
  | error e =>
    rw [change, updateFrames_eq_none_iff.2 (update_eq_error_iff.1 h).1, Option.getD_none]

/-- A declaration changes the innermost frame alone. -/
theorem frames_call_declare (s : Scope β) (x : String) (v : β) :
    ∃ f, (s.call (.declare x v)).1.frames = f :: s.outer := by
  rw [call, declare]
  cases s.inner.get? x with
  | some w => exact ⟨s.inner, rfl⟩
  | none => exact ⟨(x, v) :: s.inner, rfl⟩

theorem call_lookup (s : Scope β) (x : String) : (s.call (.lookup x)).1 = s := by
  rw [call]
  cases s.lookup x <;> rfl

/-- The innermost frame is closed if it is not the only one. -/
theorem frames_call_leave {f : Frame β} (h : s.frames = f :: fs) (hfs : fs ≠ []) :
    (s.call .leave).1.frames = fs := by
  obtain ⟨inner, outer⟩ := s
  obtain ⟨-, rfl⟩ := List.cons.inj h
  cases outer with
  | nil => exact absurd rfl hfs
  | cons g gs => rfl

/-- A name that was declared has the value that it was declared with. -/
theorem lookup_call_declare (h : x ∉ s.inner.names) (y : String) :
    (s.call (.declare x v)).1.lookup y = if y = x then .ok v else s.lookup y := by
  have hcall : (s.call (.declare x v)).1 = ⟨(x, v) :: s.inner, s.outer⟩ := by
    rw [call, declare, Frame.get?_eq_none_iff.2 h]
    rfl
  rw [hcall, lookup, lookup, frames, frames, find?_cons, find?_cons]
  by_cases hyx : y = x
  · subst hyx
    rw [if_pos rfl, Frame.get?_cons_self]
    rfl
  · rw [if_neg hyx, Frame.get?_cons_of_ne hyx]

/-- The answer to a failing call comes from the scope that is left. -/
theorem call_eq_self (h : (s.call c).2 = .refused ∨ ∃ e, (s.call c).2 = .failed e) :
    (s.call c).1 = s := by
  have hchange : ∀ r, (s.change r).2 = .refused ∨ (∃ e, (s.change r).2 = .failed e) →
      (s.change r).1 = s := by
    rintro (e | t) h
    · rfl
    · rcases h with h | ⟨e, h⟩ <;> cases h
  cases c with
  | enter => rcases h with h | ⟨e, h⟩ <;> cases h
  | leave =>
    rw [call] at h ⊢
    cases hleave : s.leave? with
    | none => rfl
    | some t =>
      rw [hleave] at h
      rcases h with h | ⟨e, h⟩ <;> cases h
  | declare x v => exact hchange _ h
  | update x v => exact hchange _ h
  | lookup x => exact call_lookup s x

end Calls

/-! ## The number of frames -/

section Depth

variable {s : Scope β}

theorem depth_call_leave (s : Scope β) : (s.call .leave).1.depth = max 1 (s.depth - 1) := by
  obtain ⟨f, outer⟩ := s
  cases outer with
  | nil => rfl
  | cons g gs =>
    show gs.length + 1 = _
    simp only [depth, List.length_cons]
    omega

theorem depth_call (hc : c ≠ .enter) (hc' : c ≠ .leave) : (s.call c).1.depth = s.depth := by
  have hchange : ∀ r, (∀ t, r = .ok t → t.outer.length = s.outer.length) →
      (s.change r).1.depth = s.depth := by
    rintro (e | t) h
    · rfl
    · exact congrArg (· + 1) (h t rfl)
  cases c with
  | enter => exact absurd rfl hc
  | leave => exact absurd rfl hc'
  | declare x v => exact hchange _ fun t h => (Changes.declare h).length_outer
  | update x v =>
    refine hchange _ fun t h => ?_
    obtain ⟨_, _, hchanges⟩ := Changes.update h
    exact hchanges.length_outer
  | lookup x => rw [call_lookup]

/-- Of the frames that were there, those which can be closed are; the unmatched ones come to
what is left. -/
theorem depth_after_from (s : Scope β) (calls : List (Call β)) :
    (s.after calls).depth = 1 + (s.depth - 1 - closings calls) + unmatched calls := by
  induction calls generalizing s with
  | nil =>
    have hpos := s.depth_pos
    rw [after, List.foldl_nil, closings, unmatched]
    omega
  | cons c calls ih =>
    have hstep : (s.after (c :: calls)).depth =
        1 + ((s.call c).1.depth - 1 - closings calls) + unmatched calls := ih _
    have hpos := s.depth_pos
    rw [hstep]
    by_cases hc : c = .enter
    · subst hc
      have henter : (s.call .enter).1.depth = s.depth + 1 := rfl
      rw [henter, closings, unmatched]
      split
      · next h =>
        have := closing_iff.1 h
        omega
      · next h =>
        have := mt closing_iff.2 h
        omega
    by_cases hc' : c = .leave
    · subst hc'
      rw [depth_call_leave, closings, unmatched_cons hc]
      omega
    · rw [depth_call hc hc', closings_cons hc hc', unmatched_cons hc]

/-- **There is one frame, and one more for each unmatched `enter`.** -/
theorem depth_after (calls : List (Call β)) :
    (empty.after calls : Scope β).depth = 1 + unmatched calls := by
  have hempty : (empty : Scope β).depth = 1 := rfl
  rw [depth_after_from, hempty]
  omega

end Depth

/-! ## Segments -/

/-- The frames that lie inside of the `d` outermost ones. -/
def innerTo (d : Nat) (s : Scope β) : List (Frame β) := s.frames.take (s.depth - d)

/-- The value that a call gives to the binding of `x` in the `d` outermost frames, if it is an
update of `x` and no other frame binds `x`. -/
def reach (d : Nat) (x : String) (s : Scope β) : Call β → List β
  | .update y v => if y = x ∧ ∀ f ∈ s.innerTo d, x ∉ f.names then [v] else []
  | _ => []

/-- The values that calls give to the binding of `x` in the `d` outermost frames, in order. -/
def reaching (d : Nat) (x : String) : Scope β → List (Call β) → List β
  | _, [] => []
  | s, c :: calls => reach d x s c ++ reaching d x (s.call c).1 calls

theorem reaching_append (d : Nat) (x : String) (s : Scope β) (calls more : List (Call β)) :
    reaching d x s (calls ++ more) = reaching d x s calls ++ reaching d x (s.after calls) more := by
  induction calls generalizing s with
  | nil => rfl
  | cons c calls ih =>
    rw [List.cons_append, reaching, ih, reaching, List.append_assoc]
    rfl

/-- For `x` the frames `out'` are `out`, but where a frame of `out` binds `x`, the values `vs`
were written, one after another. -/
structure Overwrites (x : String) (vs : List β) (out out' : List (Frame β)) : Prop where
  /-- There are as many frames. -/
  length : out'.length = out.length
  /-- The last value counts. -/
  find : find? x out' = (find? x out).map fun v => vs.getLast?.getD v

namespace Overwrites

variable {x : String} {vs vs' : List β} {out out' out'' : List (Frame β)}

theorem refl (x : String) (out : List (Frame β)) : Overwrites x [] out out :=
  ⟨rfl, Option.map_id'.symm⟩

theorem trans (h : Overwrites x vs out out') (h' : Overwrites x vs' out' out'') :
    Overwrites x (vs ++ vs') out out'' := by
  refine ⟨h'.length.trans h.length, ?_⟩
  rw [h'.find, h.find, Option.map_map]
  congr 1
  funext v
  show vs'.getLast?.getD (vs.getLast?.getD v) = (vs ++ vs').getLast?.getD v
  rw [List.getLast?_append, Option.getD_or]

end Overwrites

section Segments

variable {s : Scope β} {fs own out : List (Frame β)} {x y : String} {v : β}

theorem find?_updateFrames (y : String) (v : β) (fs : List (Frame β)) :
    find? x ((updateFrames y v fs).getD fs) =
      if y = x then (find? x fs).map fun _ => v else find? x fs := by
  induction fs with
  | nil => cases Classical.em (y = x) <;> simp [updateFrames, find?, *]
  | cons f fs ih =>
    rw [updateFrames, find?_cons f fs]
    cases hf : f.get? y with
    | some w =>
      show find? x (f.set y v :: fs) = _
      rw [find?_cons]
      by_cases hyx : y = x
      · subst hyx
        rw [if_pos rfl, Frame.get?_set_self v (Frame.get?_eq_some_iff_mem.1 ⟨w, hf⟩), hf]
        rfl
      · rw [if_neg hyx, Frame.get?_set_of_ne (Ne.symm hyx)]
    | none =>
      have hrest : ((updateFrames y v fs).map (f :: ·)).getD (f :: fs) =
          f :: (updateFrames y v fs).getD fs := by
        cases updateFrames y v fs <;> rfl
      rw [hrest, find?_cons, ih]
      by_cases hyx : y = x
      · subst hyx
        rw [if_pos rfl, if_pos rfl, hf]
        rfl
      · rw [if_neg hyx, if_neg hyx]

/-- A name that was updated has the new value. -/
theorem lookup_call_update (h : ∃ f ∈ s.frames, x ∈ f.names) (y : String) :
    (s.call (.update x v)).1.lookup y = if y = x then .ok v else s.lookup y := by
  have hbound : find? x s.frames ≠ none := by
    rw [Ne, find?_eq_none_iff]
    obtain ⟨f, hf, hx⟩ := h
    exact fun hall => hall f hf hx
  rw [lookup, lookup, frames_call_update, find?_updateFrames]
  by_cases hyx : y = x
  · subst hyx
    obtain ⟨w, hw⟩ := Option.ne_none_iff_exists'.1 hbound
    rw [if_pos rfl, if_pos rfl, hw]
    rfl
  · rw [if_neg hyx, if_neg (Ne.symm hyx)]

theorem length_updateFrames (x : String) (v : β) (fs : List (Frame β)) :
    ((updateFrames x v fs).getD fs).length = fs.length := by
  cases h : updateFrames x v fs with
  | none => rfl
  | some fs' =>
    obtain ⟨_, _, hnames, _⟩ := Changes.updateFrames h
    simpa using congrArg List.length hnames

theorem Overwrites.update (y : String) (v : β) (out : List (Frame β)) :
    Overwrites x (if y = x then [v] else []) out ((updateFrames y v out).getD out) := by
  refine ⟨length_updateFrames y v out, ?_⟩
  rw [find?_updateFrames]
  split
  · rfl
  · exact Option.map_id'.symm

/-- An update stops at the first frame that binds the name. -/
theorem updateFrames_append_of_mem (out : List (Frame β)) (v : β)
    (h : ¬ ∀ f ∈ own, x ∉ f.names) :
    ∃ own', updateFrames x v (own ++ out) = some (own' ++ out) ∧ own'.length = own.length := by
  induction own with
  | nil => exact absurd nofun h
  | cons f own ih =>
    rw [List.cons_append, updateFrames]
    cases hf : f.get? x with
    | some w => exact ⟨f.set x v :: own, rfl, rfl⟩
    | none =>
      rw [List.forall_mem_cons, not_and] at h
      obtain ⟨own', hown', hlength⟩ := ih (h (Frame.get?_eq_none_iff.1 hf))
      exact ⟨f :: own', congrArg (Option.map (f :: ·)) hown', congrArg (· + 1) hlength⟩

/-- An update passes over frames that do not bind the name. -/
theorem updateFrames_append_of_not_mem (h : ∀ f ∈ own, x ∉ f.names) :
    updateFrames x v (own ++ out) = (updateFrames x v out).map (own ++ ·) := by
  induction own with
  | nil => exact Option.map_id'.symm
  | cons f own ih =>
    rw [List.forall_mem_cons] at h
    rw [List.cons_append, updateFrames, Frame.get?_eq_none_iff.2 h.1, ih h.2, Option.map_map]
    rfl

theorem innerTo_length (h : s.frames = own ++ out) : s.innerTo out.length = own := by
  have hdepth : s.depth = own.length + out.length := by
    rw [← List.length_append, ← h]
    rfl
  rw [innerTo, hdepth, Nat.add_sub_cancel, h, List.take_left]

/-- A call that opens and closes no frame does to the frames outside what it reaches there. -/
theorem call_overwrites (hc : c ≠ .enter) (hc' : c ≠ .leave) (h : s.frames = own ++ out)
    (hown : own ≠ []) (x : String) :
    ∃ own' out', (s.call c).1.frames = own' ++ out' ∧ own'.length = own.length ∧
      Overwrites x (reach out.length x s c) out out' := by
  cases c with
  | enter => exact absurd rfl hc
  | leave => exact absurd rfl hc'
  | declare y v =>
    obtain ⟨f, hcall⟩ := s.frames_call_declare y v
    obtain ⟨g, own, rfl⟩ := List.exists_cons_of_ne_nil hown
    obtain ⟨-, houter⟩ := List.cons.inj h
    exact ⟨f :: own, out, by rw [hcall, houter]; rfl, rfl, .refl x out⟩
  | update y v =>
    rw [frames_call_update, h, reach, innerTo_length h]
    by_cases hmem : ∀ f ∈ own, y ∉ f.names
    · refine ⟨own, (updateFrames y v out).getD out, ?_, rfl, ?_⟩
      · rw [updateFrames_append_of_not_mem hmem]
        cases updateFrames y v out <;> rfl
      · have hiff : (y = x ∧ ∀ f ∈ own, x ∉ f.names) ↔ y = x :=
          ⟨And.left, fun hyx => ⟨hyx, hyx ▸ hmem⟩⟩
        simp only [hiff]
        exact .update y v out
    · obtain ⟨own', hown', hlength⟩ := updateFrames_append_of_mem out v hmem
      refine ⟨own', out, by rw [hown', Option.getD_some], hlength, ?_⟩
      rw [if_neg fun hx : y = x ∧ _ => hmem (hx.1 ▸ hx.2)]
      exact .refl x out
  | lookup y => exact ⟨own, out, by rw [call_lookup, h], rfl, .refl x out⟩

/-- **Balanced calls do to the frames outside what they reach there.** -/
theorem Balanced.overwrites (hinside : Balanced inside) (h : s.frames = own ++ out)
    (hown : own ≠ []) (x : String) :
    ∃ own' out', (s.after inside).frames = own' ++ out' ∧ own'.length = own.length ∧
      Overwrites x (reaching out.length x s inside) out out' := by
  induction hinside generalizing s own out with
  | nil => exact ⟨own, out, h, rfl, .refl x out⟩
  | @cons c calls hc hc' _ ih =>
    obtain ⟨own₁, out₁, hcall, hlength, hstep⟩ := call_overwrites hc hc' h hown x
    have hown₁ : own₁ ≠ [] := by
      rw [← List.length_pos_iff] at hown ⊢
      omega
    obtain ⟨own₂, out₂, hafter, hlength₂, hcalls⟩ := ih hcall hown₁
    rw [hstep.length] at hcalls
    exact ⟨own₂, out₂, hafter, hlength₂.trans hlength, hstep.trans hcalls⟩
  | @framed inside calls _ _ ih ih' =>
    -- the frame that is opened is in front of the others inside, and is closed after them
    have henter : s.enter.frames = ([] :: own) ++ out := congrArg ([] :: ·) h
    obtain ⟨own₁, out₁, hafter₁, hlength₁, hinside⟩ := ih henter (List.cons_ne_nil _ _)
    obtain ⟨g, gs, rfl⟩ := List.exists_cons_of_length_eq_add_one hlength₁
    have hlength : gs.length = own.length := Nat.succ_inj.1 hlength₁
    have hgs : gs ≠ [] := by
      rw [← List.length_pos_iff] at hown ⊢
      omega
    have hleave := frames_call_leave hafter₁ (List.append_ne_nil_of_left_ne_nil hgs out₁)
    obtain ⟨own₂, out₂, hafter₂, hlength₂, hcalls⟩ := ih' hleave hgs
    rw [hinside.length] at hcalls
    refine ⟨own₂, out₂, ?_, hlength₂.trans hlength, ?_⟩
    · rw [after_cons, after_append, after_cons]
      exact hafter₂
    · rw [reaching, reaching_append, reaching]
      exact hinside.trans hcalls

/-- **What a segment leaves of the scope around it.** -/
theorem after_segment (hinside : Balanced inside) (s : Scope β) (x : String) :
    Overwrites x (reaching s.depth x s.enter inside) s.frames
      (s.after (.enter :: (inside ++ [.leave]))).frames := by
  have henter : s.enter.frames = [[]] ++ s.frames := rfl
  obtain ⟨own, out, hafter, hlength, hwrites⟩ :=
    hinside.overwrites henter (List.cons_ne_nil _ _) x
  obtain ⟨f, rfl⟩ := List.length_eq_one_iff.1 hlength
  have hout : out ≠ [] := by
    rw [← List.length_pos_iff, hwrites.length]
    exact s.depth_pos
  have hleave : (s.after (.enter :: (inside ++ [.leave]))).frames = out := by
    rw [after_cons, after_append]
    exact frames_call_leave hafter hout
  rw [hleave]
  exact hwrites

/-- A name means around a segment what it has meant before, or what the last update that
reached it says. -/
theorem lookup_after_segment (hinside : Balanced inside) (s : Scope β) (x : String) :
    (s.after (.enter :: (inside ++ [.leave]))).lookup x =
      (s.lookup x).map fun v => (reaching s.depth x s.enter inside).getLast?.getD v := by
  rw [lookup, (after_segment hinside s x).find, lookup]
  cases find? x s.frames <;> rfl

end Segments

/-! ## Nested frames -/

theorem change_done_or_failed (s : Scope β) (r : Except ScopeError (Scope β)) :
    (s.change r).2 = .done ∨ ∃ e, (s.change r).2 = .failed e := by
  cases r with
  | ok t => exact .inl rfl
  | error e => exact .inr ⟨e, rfl⟩

theorem done_or_failed {s : Scope β} (c : Call β) (h : ∀ x, c ≠ .lookup x) :
    (s.call c).2 = .done ∨ c = .leave ∧ (s.call c).2 = .refused ∨ ∃ e, (s.call c).2 = .failed e := by
  cases c with
  | enter => exact .inl rfl
  | leave =>
    rw [call]
    cases s.leave? with
    | none => exact .inr (.inl ⟨rfl, rfl⟩)
    | some t => exact .inl rfl
  | declare x v => exact (s.change_done_or_failed _).imp_right .inr
  | update x v => exact (s.change_done_or_failed _).imp_right .inr
  | lookup x => exact absurd rfl (h x)

/-- The scope behaves as frames that are nested. -/
structure Lexical (s : Scope β) : Prop where
  /-- A frame can be closed unless it is the only one. -/
  leave_refused : (s.call .leave).2 = .refused ↔ s.depth = 1
  /-- A name cannot be declared twice in one frame. -/
  declare_failed : ∀ x v e, (s.call (.declare x v)).2 = .failed e ↔
    x ∈ s.inner.names ∧ e = .alreadyDeclared x
  /-- A name can be updated if some frame binds it. -/
  update_failed : ∀ x v e, (s.call (.update x v)).2 = .failed e ↔
    (∀ f ∈ s.frames, x ∉ f.names) ∧ e = .undeclared x
  /-- And so it can be looked up. -/
  lookup_failed : ∀ x e, (s.call (.lookup x)).2 = .failed e ↔
    (∀ f ∈ s.frames, x ∉ f.names) ∧ e = .undeclared x
  /-- A look-up that does not fail answers what the name means. -/
  lookup_value : ∀ x v, (s.call (.lookup x)).2 = .value v ↔ s.lookup x = .ok v
  /-- Every other call is done, unless it fails or the only frame is to be closed. -/
  done : ∀ c, (∀ x, c ≠ .lookup x) → (s.call c).2 = .done ∨
    c = .leave ∧ (s.call c).2 = .refused ∨ ∃ e, (s.call c).2 = .failed e
  /-- A call that fails changes nothing. -/
  unchanged : ∀ c, (s.call c).2 = .refused ∨ (∃ e, (s.call c).2 = .failed e) → (s.call c).1 = s
  /-- A name that is declared means what it is declared as, whatever it has meant, and no other
  name is touched. -/
  declared : ∀ x v, x ∉ s.inner.names → ∀ y,
    (s.call (.declare x v)).1.lookup y = if y = x then .ok v else s.lookup y
  /-- A name that is updated means the new value, and no other name is touched. -/
  updated : ∀ x v, (∃ f ∈ s.frames, x ∈ f.names) → ∀ y,
    (s.call (.update x v)).1.lookup y = if y = x then .ok v else s.lookup y
  /-- A segment leaves as many frames as there were, and changes what names mean by those of
  its updates which reach them. -/
  segment : ∀ inside, Balanced inside → ∀ x,
    (s.after (.enter :: (inside ++ [.leave]))).depth = s.depth ∧
    (s.after (.enter :: (inside ++ [.leave]))).lookup x =
      (s.lookup x).map fun v => (reaching s.depth x s.enter inside).getLast?.getD v

theorem lexical (s : Scope β) : s.Lexical where
  leave_refused := by
    rw [← leave?_eq_none_iff, call]
    cases s.leave? with
    | none => exact iff_of_true rfl rfl
    | some t => exact iff_of_false nofun nofun
  declare_failed _ _ _ := change_failed_iff.trans declare_eq_error_iff
  update_failed _ _ _ := change_failed_iff.trans update_eq_error_iff
  lookup_failed x e := by
    rw [← lookup_eq_error_iff, call]
    cases s.lookup x <;> simp
  lookup_value x v := by
    rw [call]
    cases s.lookup x <;> simp
  done := done_or_failed
  unchanged _ := call_eq_self
  declared _ _ h y := lookup_call_declare h y
  updated _ _ h y := lookup_call_update h y
  segment _ hinside x := ⟨(after_segment hinside s x).length, lookup_after_segment hinside s x⟩

/-- **After any history a scope behaves as nested frames**, of which there is one, and one more
for each `enter` that was not matched. -/
theorem lexical_after (calls : List (Call β)) :
    (empty.after calls : Scope β).depth = 1 + unmatched calls ∧
      (empty.after calls : Scope β).Lexical :=
  ⟨depth_after calls, lexical _⟩

/-- The update before `x` is declared inside reaches the binding outside, and so does the one
after the frame of the second declaration is closed; those in between do not. -/
example : reaching 1 "x" (empty.after [.declare "x" 0, .enter] : Scope Nat)
    [.update "x" 1, .enter, .declare "x" 2, .update "x" 3, .leave, .update "x" 4] = [1, 4] := by
  decide

end PairDict.Scope
