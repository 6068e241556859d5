import Mathlib.Data.List.Forall2
import PairDict.Proofs.Scope.Frame
import PairDict.Proofs.Typing.Rules
import PairDict.Proofs.Value.Ordered

/-! # Frames of types and frames of values

While a program is checked its scope binds names to types, while it runs its scope
binds them to values.  Here is what it means that the two fit:

* `Inhabits v t`: the value `v` has the shape that the type `t` promises.  A
  dictionary has the shape if all its entries have.
* `Agree f g`: the frames `f` and `g` bind the same names, in the same order, and
  what `g` binds a name to inhabits what `f` binds it to.
* `Lockstep Γ fs`: the stacks `Γ` and `fs` have frames that agree, one by one.

Every operation on scopes keeps stacks in lockstep, and none of them fails on the
values where the typing rules allow it on the types: a name that has a type has a
value (`Lockstep.lookup`), can be given another value of that type
(`Lockstep.update`), and a name that is new to the innermost frame can be declared
(`Lockstep.declare`).
-/
namespace PairDict

/-! ## Values of a type -/

/-- Which values a type is true of. -/
inductive Inhabits : Value → Ty → Prop where
  | int {n} : Inhabits (.int n) .int
  | bool {b} : Inhabits (.bool b) .bool
  | pair {x y s t} : Inhabits x s → Inhabits y t → Inhabits (.pair x y) (.pair s t)
  | dict {d t} : (∀ b ∈ d.toList, Inhabits b.2 t) → Inhabits (.dict d) (.dict t)

namespace Inhabits

theorem int_inv {v : Value} (h : Inhabits v .int) : ∃ n, v = .int n := by
  cases h
  exact ⟨_, rfl⟩

theorem bool_inv {v : Value} (h : Inhabits v .bool) : ∃ b, v = .bool b := by
  cases h
  exact ⟨_, rfl⟩

theorem pair_inv {v : Value} {s t : Ty} (h : Inhabits v (.pair s t)) :
    ∃ x y, v = .pair x y ∧ Inhabits x s ∧ Inhabits y t := by
  cases h with
  | pair hx hy => exact ⟨_, _, rfl, hx, hy⟩

theorem dict_inv {v : Value} {t : Ty} (h : Inhabits v (.dict t)) :
    ∃ d, v = .dict d ∧ ∀ b ∈ d.toList, Inhabits b.2 t := by
  cases h with
  | dict h => exact ⟨_, rfl, h⟩

end Inhabits

theorem Inhabits.insert {d : Dict} {t : Ty} {k : Int64} {v : Value}
    (hd : ∀ b ∈ d.toList, Inhabits b.2 t) (hv : Inhabits v t) :
    Inhabits (.dict (d.insert k v)) (.dict t) := by
  refine .dict fun b hb => ?_
  rcases Dict.mem_toList_insert hb with rfl | hb
  · exact hv
  · exact hd b hb

theorem Inhabits.erase {d : Dict} {t : Ty} {k : Int64} (hd : ∀ b ∈ d.toList, Inhabits b.2 t) :
    Inhabits (.dict (d.erase k)) (.dict t) :=
  .dict fun b hb => hd b (Dict.mem_toList_of_erase hb)

/-! ## Frames -/

/-- A binding of a name to a type and one to a value that fit. -/
def Fits (b : String × Ty) (c : String × Value) : Prop := b.1 = c.1 ∧ Inhabits c.2 b.2

/-- A frame of types and a frame of values that fit. -/
structure Agree (f : Frame Ty) (g : Frame Value) : Prop where
  /-- No name is bound twice. -/
  nodup : f.names.Nodup
  /-- The bindings fit, one by one. -/
  fits : List.Forall₂ Fits f g

namespace Agree

variable {f : Frame Ty} {g : Frame Value} {x : String} {t : Ty} {v : Value}

theorem nil : Agree [] [] := ⟨List.nodup_nil, .nil⟩

theorem names_eq (h : Agree f g) : f.names = g.names := by
  induction h.fits with
  | nil => rfl
  | cons hb _ ih => exact congrArg₂ List.cons hb.1 (ih ⟨(List.nodup_cons.1 h.nodup).2, ‹_›⟩)

/-- What the one frame does not bind, the other does not bind either. -/
theorem get?_eq_none (h : Agree f g) (hx : f.get? x = none) : g.get? x = none := by
  rw [Frame.get?_eq_none_iff] at hx ⊢
  rwa [← h.names_eq]

theorem get?_eq_some (h : Agree f g) (hx : f.get? x = some t) :
    ∃ v, g.get? x = some v ∧ Inhabits v t := by
  obtain ⟨-, h⟩ := h
  induction h with
  | nil => cases hx
  | @cons b c f g hb _ ih =>
    obtain ⟨y, u⟩ := b
    obtain ⟨z, w⟩ := c
    obtain ⟨rfl, hw⟩ := hb
    by_cases hxy : x = y
    · subst hxy
      rw [Frame.get?_cons_self] at hx
      cases hx
      exact ⟨w, Frame.get?_cons_self w, hw⟩
    · rw [Frame.get?_cons_of_ne hxy] at hx
      obtain ⟨v, hv, hvt⟩ := ih hx
      exact ⟨v, by rw [Frame.get?_cons_of_ne hxy, hv], hvt⟩

theorem cons (h : Agree f g) (hx : f.get? x = none) (hv : Inhabits v t) :
    Agree ((x, t) :: f) ((x, v) :: g) :=
  ⟨List.nodup_cons.2 ⟨Frame.get?_eq_none_iff.1 hx, h.nodup⟩, .cons ⟨rfl, hv⟩ h.fits⟩

theorem set (h : Agree f g) (hx : f.get? x = some t) (hv : Inhabits v t) :
    Agree f (g.set x v) := by
  refine ⟨h.nodup, ?_⟩
  obtain ⟨hnd, h⟩ := h
  induction h with
  | nil => exact .nil
  | @cons b c f g hb hrest ih =>
    obtain ⟨y, u⟩ := b
    obtain ⟨z, w⟩ := c
    obtain ⟨rfl, hw⟩ := hb
    have hrestnd : (Frame.names f).Nodup := (List.nodup_cons.1 hnd).2
    by_cases hxy : x = y
    · -- no other binding has the name, so the others stay as they are
      subst hxy
      rw [Frame.get?_cons_self] at hx
      cases hx
      have hnot : x ∉ Frame.names g := by
        rw [← names_eq ⟨hrestnd, hrest⟩]
        exact (List.nodup_cons.1 hnd).1
      rw [Frame.set_cons_self, Frame.set_eq_self hnot]
      exact .cons ⟨rfl, hv⟩ hrest
    · rw [Frame.get?_cons_of_ne hxy] at hx
      rw [Frame.set_cons_of_ne hxy]
      exact .cons ⟨rfl, hw⟩ (ih hx hrestnd)

end Agree

/-! ## Stacks of frames -/

/-- A stack of frames of types and one of frames of values that fit. -/
def Lockstep : List (Frame Ty) → List (Frame Value) → Prop := List.Forall₂ Agree

namespace Lockstep

variable {Γ : List (Frame Ty)} {fs : List (Frame Value)} {σ : Scope Value} {x : String} {t : Ty}
  {v : Value}

theorem find?_eq_some (h : Lockstep Γ fs) (hx : Binds Γ x t) :
    ∃ v, Scope.find? x fs = some v ∧ Inhabits v t := by
  induction hx generalizing fs with
  | here hx =>
    cases h with
    | cons hf _ =>
      obtain ⟨v, hv, hvt⟩ := hf.get?_eq_some hx
      exact ⟨v, by simp [Scope.find?, hv], hvt⟩
  | outer hx _ ih =>
    cases h with
    | cons hf hfs =>
      obtain ⟨v, hv, hvt⟩ := ih hfs
      refine ⟨v, ?_, hvt⟩
      simpa [Scope.find?, hf.get?_eq_none hx] using hv

/-- A name with a type has a value of that type. -/
theorem lookup (h : Lockstep Γ σ.frames) (hx : Binds Γ x t) :
    ∃ v, σ.lookup x = .ok v ∧ Inhabits v t := by
  obtain ⟨v, hv, hvt⟩ := h.find?_eq_some hx
  exact ⟨v, by rw [Scope.lookup, hv], hvt⟩

/-- A name that is new to the innermost frame of types can be declared. -/
theorem declare {f : Frame Ty} (h : Lockstep (f :: Γ) σ.frames) (hx : f.get? x = none)
    (hv : Inhabits v t) :
    ∃ σ', σ.declare x v = .ok σ' ∧ Lockstep (((x, t) :: f) :: Γ) σ'.frames := by
  obtain ⟨g, gs⟩ := σ
  cases h with
  | cons hf hfs =>
    refine ⟨⟨(x, v) :: g, gs⟩, ?_, .cons (hf.cons hx hv) hfs⟩
    rw [Scope.declare, show Frame.get? g x = none from hf.get?_eq_none hx]

theorem updateFrames (h : Lockstep Γ fs) (hx : Binds Γ x t) (hv : Inhabits v t) :
    ∃ fs', Scope.updateFrames x v fs = some fs' ∧ Lockstep Γ fs' := by
  induction hx generalizing fs with
  | here hx =>
    cases h with
    | @cons _ g _ gs hf hfs =>
      obtain ⟨w, hw, -⟩ := hf.get?_eq_some hx
      exact ⟨g.set _ v :: gs, by rw [Scope.updateFrames, hw], .cons (hf.set hx hv) hfs⟩
  | outer hx _ ih =>
    cases h with
    | @cons _ g _ gs hf hfs =>
      obtain ⟨gs', hgs', h'⟩ := ih hfs hv
      refine ⟨g :: gs', ?_, .cons hf h'⟩
      rw [Scope.updateFrames, hf.get?_eq_none hx, hgs']
      rfl

/-- A name with a type can be given another value of that type. -/
theorem update (h : Lockstep Γ σ.frames) (hx : Binds Γ x t) (hv : Inhabits v t) :
    ∃ σ', σ.update x v = .ok σ' ∧ Lockstep Γ σ'.frames := by
  obtain ⟨fs', hfs', h'⟩ := h.updateFrames hx hv
  -- an update looks at the innermost frame apart, to the same effect
  obtain ⟨g, gs⟩ := σ
  rw [Scope.frames, Scope.updateFrames] at hfs'
  cases hg : Frame.get? g x with
  | some w =>
    rw [hg] at hfs'
    cases hfs'
    exact ⟨⟨g.set x v, gs⟩, by rw [Scope.update, hg], h'⟩
  | none =>
    rw [hg] at hfs'
    obtain ⟨gs', hgs', rfl⟩ := Option.map_eq_some_iff.1 hfs'
    exact ⟨⟨g, gs'⟩, by rw [Scope.update, hg, hgs'], h'⟩

theorem enter (h : Lockstep Γ σ.frames) : Lockstep ([] :: Γ) σ.enter.frames := .cons .nil h

/-- Closing a frame on both sides. -/
theorem leave {f : Frame Ty} (h : Lockstep (f :: Γ) σ.frames) (hne : Γ ≠ []) :
    Lockstep Γ σ.leave.frames := by
  obtain ⟨g, gs⟩ := σ
  cases h with
  | cons _ hfs =>
    cases hfs with
    | nil => exact absurd rfl hne
    | cons hf hfs => exact .cons hf hfs

end Lockstep

end PairDict
