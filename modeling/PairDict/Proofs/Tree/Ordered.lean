import PairDict.Pos
import PairDict.Proofs.Tree.Address

/-! # Trees in the order of their positions

A tree lies **between** two positions if a walk over it starts at the first or later, never
goes back, and ends at the second or earlier, and if the same is true of every block in it
between its own position and that of its closing brace (`Node.Between`).

A node is put together from children that lie one after another between its position and some
later one (`Node.Between.parent`, `Node.Between.block`).
-/
namespace PairDict

namespace Pos

/-- The one position is not read after the other. -/
def NoLater (p q : Pos) : Prop := p.line < q.line ∨ (p.line = q.line ∧ p.col ≤ q.col)

variable {p q r : Pos}

theorem NoLater.refl (p : Pos) : p.NoLater p := .inr ⟨rfl, Int.le_refl _⟩

theorem NoLater.trans (h : p.NoLater q) (h' : q.NoLater r) : p.NoLater r := by
  unfold NoLater at *
  omega

/-- The positions go from `lo` to `hi` and never back. -/
def Rises (lo : Pos) : List Pos → Pos → Prop
  | [], hi => lo.NoLater hi
  | p :: ps, hi => lo.NoLater p ∧ Rises p ps hi

variable {lo lo' mid hi hi' : Pos} {ps qs : List Pos}

theorem Rises.noLater (h : Rises lo ps hi) : lo.NoLater hi := by
  induction ps generalizing lo with
  | nil => exact h
  | cons p ps ih => exact h.1.trans (ih h.2)

theorem Rises.lower (h : Rises lo ps hi) (hlo : lo'.NoLater lo) : Rises lo' ps hi := by
  cases ps with
  | nil => exact hlo.trans h
  | cons p ps => exact ⟨hlo.trans h.1, h.2⟩

theorem Rises.raise (h : Rises lo ps hi) (hhi : hi.NoLater hi') : Rises lo ps hi' := by
  induction ps generalizing lo with
  | nil => exact NoLater.trans h hhi
  | cons p ps ih => exact ⟨h.1, ih h.2⟩

theorem Rises.append (h : Rises lo ps mid) (h' : Rises mid qs hi) : Rises lo (ps ++ qs) hi := by
  induction ps generalizing lo with
  | nil => exact h'.lower h
  | cons p ps ih => exact ⟨h.1, ih h.2⟩

theorem Rises.mem (h : Rises lo ps hi) (hp : p ∈ ps) : lo.NoLater p ∧ p.NoLater hi := by
  induction ps generalizing lo with
  | nil => exact absurd hp List.not_mem_nil
  | cons q ps ih =>
    rcases List.mem_cons.1 hp with rfl | hp
    · exact ⟨h.1, h.2.noLater⟩
    · obtain ⟨hlo, hhi⟩ := ih h.2 hp
      exact ⟨h.1.trans hlo, hhi⟩

theorem Rises.pairwise (h : Rises lo ps hi) : ps.Pairwise NoLater := by
  induction ps generalizing lo with
  | nil => exact .nil
  | cons p ps ih => exact .cons (fun q hq => (h.2.mem hq).1) (ih h.2)

end Pos

namespace Node

/-- The positions of some nodes, in the order of a walk, and of the statements of every block
in them. -/
def AllBetween (lo : Pos) (ns : List (Node Pos)) (hi : Pos) : Prop :=
  Pos.Rises lo ((ns.flatMap (walk fun _ => true)).map ann) hi ∧
    ∀ b, .stmt (.block b) ∈ ns.flatMap (walk fun _ => true) →
      Pos.Rises b.ann ((b.body.walk fun _ => true).map ann) b.close

/-- The tree lies between two positions. -/
def Between (lo : Pos) (n : Node Pos) (hi : Pos) : Prop := AllBetween lo [n] hi

variable {lo lo' mid hi hi' : Pos} {n : Node Pos} {ns : List (Node Pos)}

theorem AllBetween.nil (h : lo.NoLater hi) : AllBetween lo [] hi :=
  ⟨h, fun _ hb => absurd hb List.not_mem_nil⟩

theorem AllBetween.cons (h : Between lo n mid) (h' : AllBetween mid ns hi) :
    AllBetween lo (n :: ns) hi := by
  rw [Between, AllBetween, List.flatMap_singleton] at h
  rw [AllBetween, List.flatMap_cons, List.map_append]
  refine ⟨h.1.append h'.1, fun b hb => ?_⟩
  rcases List.mem_append.1 hb with hb | hb
  · exact h.2 b hb
  · exact h'.2 b hb

theorem Between.lower (h : Between lo n hi) (hlo : lo'.NoLater lo) : Between lo' n hi :=
  ⟨h.1.lower hlo, h.2⟩

theorem Between.raise (h : Between lo n hi) (hhi : hi.NoLater hi') : Between lo n hi' :=
  ⟨h.1.raise hhi, h.2⟩

theorem walk_singleton (n : Node Pos) :
    [n].flatMap (walk fun _ => true) = n :: n.children.flatMap (walk fun _ => true) := by
  rw [List.flatMap_singleton, walk_eq, visit, if_pos rfl]

/-- A tree stands at its own position. -/
theorem Between.start (h : Between lo n hi) : lo.NoLater n.ann ∧ Between n.ann n hi := by
  rw [Between, AllBetween, walk_singleton] at h
  rw [Between, AllBetween, walk_singleton]
  exact ⟨h.1.1, ⟨.refl _, h.1.2⟩, h.2⟩

/-- A node other than a block lies around its children. -/
theorem Between.parent (hclose : n.close? = none) (hann : lo.NoLater n.ann)
    (hall : AllBetween n.ann n.children hi) : Between lo n hi := by
  rw [Between, AllBetween, walk_singleton]
  refine ⟨⟨hann, hall.1⟩, fun b hb => ?_⟩
  rcases List.mem_cons.1 hb with rfl | hb
  · cases hclose
  · exact hall.2 b hb

/-- A block lies around its statements, which end before its closing brace. -/
theorem Between.block {b : Block Pos} (hann : lo.NoLater b.ann)
    (hbody : Between b.ann (.seq b.body) b.close) (hclose : b.close.NoLater hi) :
    Between lo (.stmt (.block b)) hi := by
  rw [Between, AllBetween, walk_singleton]
  refine ⟨⟨hann, hbody.1.raise hclose⟩, fun b' hb' => ?_⟩
  rcases List.mem_cons.1 hb' with heq | hb'
  · cases heq
    rw [Between, AllBetween, List.flatMap_singleton] at hbody
    exact hbody.1
  · exact hbody.2 b' hb'

end Node

end PairDict
