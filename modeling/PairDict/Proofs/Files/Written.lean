import PairDict.Files

/-! # What is read after a file is put

A file that is put at a place is what stands there, and nothing else changes
(`entry?_put_self`, `entry?_put_of_ne`).  Where no directory is lost by it, every path that
led somewhere still leads there (`follow_put`).

So a file can be read under the path whose target it was put at (`openFor_put`), and the
files differ in no other place.
-/
namespace PairDict.Files

variable {fs : Files} {place q : List String} {path : String} {bytes : List UInt8}

/-! ## Places -/

theorem ne_nil_of_entry?_ne_dir (h : fs.entry? place ≠ some .dir) : place ≠ [] := by
  rintro rfl
  exact h rfl

theorem entry?_of_ne_nil (h : q ≠ []) : fs.entry? q = fs.entries.lookup q := by
  unfold entry?
  rw [if_neg]
  rwa [List.isEmpty_iff]

/-- Replacing the entries of one key makes its lookup give the new entry, if there was one. -/
theorem lookup_replace_self (es : List (List String × Entry)) (e : Entry)
    (h : es.any (·.1 = place) = true) :
    (es.map fun x => if x.1 = place then (place, e) else x).lookup place = some e := by
  induction es with
  | nil => cases h
  | cons x es ih =>
    rw [List.map_cons]
    by_cases hx : x.1 = place
    · rw [if_pos hx, List.lookup_cons_self]
    · rw [if_neg hx, List.lookup_cons, beq_false_of_ne (Ne.symm hx)]
      refine ih ?_
      rwa [List.any_cons, decide_eq_false hx, Bool.false_or] at h

theorem lookup_replace_of_ne (es : List (List String × Entry)) (e : Entry) (h : q ≠ place) :
    (es.map fun x => if x.1 = place then (place, e) else x).lookup q = es.lookup q := by
  induction es with
  | nil => rfl
  | cons x es ih =>
    rw [List.map_cons, List.lookup_cons, List.lookup_cons, ih]
    by_cases hx : x.1 = place
    · have hq : q ≠ x.1 := hx ▸ h
      rw [if_pos hx, beq_false_of_ne h, beq_false_of_ne hq]
    · rw [if_neg hx]

theorem lookup_append_self (es : List (List String × Entry)) (e : Entry)
    (h : ¬ es.any (·.1 = place) = true) : (es ++ [(place, e)]).lookup place = some e := by
  induction es with
  | nil => exact List.lookup_cons_self
  | cons x es ih =>
    rw [List.any_cons, Bool.or_eq_true, not_or, decide_eq_true_iff] at h
    rw [List.cons_append, List.lookup_cons, beq_false_of_ne (Ne.symm h.1)]
    exact ih h.2

theorem lookup_append_of_ne (es : List (List String × Entry)) (e : Entry) (h : q ≠ place) :
    (es ++ [(place, e)]).lookup q = es.lookup q := by
  induction es with
  | nil => rw [List.nil_append, List.lookup_cons, beq_false_of_ne h]
  | cons x es ih => rw [List.cons_append, List.lookup_cons, List.lookup_cons, ih]

/-- **What was put at a place stands there.** -/
theorem entry?_put_self (h : place ≠ []) (bytes : List UInt8) :
    Files.entry? (fs.put place bytes) place = some (.file bytes none) := by
  rw [entry?_of_ne_nil h, put]
  dsimp only
  split
  · next hany => exact lookup_replace_self fs.entries _ hany
  · next hany => exact lookup_append_self fs.entries _ hany

/-- **Every other place stays as it was.** -/
theorem entry?_put_of_ne (h : q ≠ place) (bytes : List UInt8) :
    Files.entry? (fs.put place bytes) q = fs.entry? q := by
  by_cases hq : q = []
  · rw [hq]
    rfl
  · rw [entry?_of_ne_nil hq, entry?_of_ne_nil hq, put]
    dsimp only
    split
    · exact lookup_replace_of_ne fs.entries _ h
    · exact lookup_append_of_ne fs.entries _ h

/-! ## Paths -/

/-- A path that leads somewhere leads there still: what it passes through are directories,
and none of them is lost. -/
theorem follow_put {start names : List String} (hplace : fs.entry? place ≠ some .dir)
    (h : fs.follow start names = .ok q) : (fs.put place bytes).follow start names = .ok q := by
  induction names generalizing start with
  | nil => exact h
  | cons name rest ih =>
    unfold follow at h ⊢
    cases hstart : fs.entry? start with
    | none =>
      rw [hstart] at h
      cases h
    | some entry =>
      rw [hstart] at h
      cases entry with
      | file old fault => cases h
      | dir =>
        -- what is passed through is a directory, and the place is none
        have hne : start ≠ place := by
          rintro rfl
          exact hplace hstart
        rw [entry?_put_of_ne hne, hstart]
        dsimp only at h ⊢
        split at h
        · next hname =>
          rw [if_pos hname]
          exact ih h
        · next hname =>
          rw [if_neg hname]
          split at h
          · next hparent =>
            rw [if_pos hparent]
            exact ih h
          · next hparent =>
            rw [if_neg hparent]
            split at h
            · cases h
            · next hlimit =>
              rw [if_neg hlimit]
              exact ih h

theorem locate_put (hplace : fs.entry? place ≠ some .dir) (h : fs.locate path = .ok q) :
    (fs.put place bytes).locate path = .ok q := by
  unfold locate locateFrom at h ⊢
  split at h
  · cases h
  · next hinvalid =>
    rw [if_neg hinvalid]
    split at h
    · cases h
    · next hlimit =>
      rw [if_neg hlimit]
      exact follow_put hplace h

/-- A path whose target is a place leads there, and no directory is there. -/
theorem target_eq_ok (h : fs.target path = .ok place) :
    fs.locate path = .ok place ∧ fs.entry? place ≠ some .dir := by
  unfold target at h
  cases hfile : fs.locateFile path with
  | error p =>
    rw [hfile] at h
    cases h
  | ok q =>
    rw [hfile] at h
    dsimp only at h
    have hlocate : fs.locate path = .ok q := by
      unfold locateFile at hfile
      dsimp only at hfile
      split at hfile
      · -- a path that ends in a slash has no target
        cases hparent : fs.locateFrom path
            ((Path.names path).reverse.dropWhile (· = "")).tail.reverse with
        | error p =>
          rw [hparent] at hfile
          cases hfile
        | ok parent =>
          rw [hparent] at hfile
          cases hfile
      · exact hfile
    split at h
    · cases h
    · next hnot =>
      cases h
      exact ⟨hlocate, hnot⟩

/-- **A file is read under the path whose target it was put at.** -/
theorem openFor_put (h : fs.target path = .ok place) (bytes : List UInt8) :
    (fs.put place bytes).openFor path = .ok (.file bytes none) := by
  obtain ⟨hlocate, hplace⟩ := target_eq_ok h
  rw [openFor, locate_put hplace hlocate]
  dsimp only
  rw [entry?_put_self (ne_nil_of_entry?_ne_dir hplace)]

end PairDict.Files
