import PairDict.Tree.Outline

/-! # Indentation shows what stands below what

An outline shows a forest: every node has a line, and what is below it is indented by one level
more.  Nothing else marks where the nodes below a line end, so a forest can be read back from its
text only up to something that is indented less, which is called **shallower** here.

What is in the lines is a parameter.  It must be possible to tell a line from what follows its
end, and no line may start with a blank (`Legible`).  Then the text of a forest settles the
forest and where it ends (`Forest.chars_append_inj`).  Lines may hold anything else, even the end
of a line.
-/
namespace PairDict.Outline

variable {β : Type}

/-- Nodes one below the other: what is in the first one, the nodes below it, and the others. -/
inductive Forest (β : Type) where
  | nil
  | cons (head : β) (below rest : Forest β)

namespace Forest

/-- What is in the nodes is such. -/
inductive All (L : β → Prop) : Forest β → Prop where
  | nil : All L .nil
  | cons {x below rest} : L x → All L below → All L rest → All L (.cons x below rest)

/-- The lines of a forest. -/
def lines (text : β → String) (depth : Nat) : Forest β → List Line
  | .nil => []
  | .cons x below rest =>
    ⟨depth, text x⟩ :: below.lines text (depth + 1) ++ rest.lines text depth

end Forest

/-! ## Characters -/

/-- The blanks before a line. -/
def indent (depth : Nat) : List Char := (String.join (List.replicate depth "  ")).toList

theorem indent_succ (depth : Nat) : indent (depth + 1) = indent depth ++ [' ', ' '] := by
  rw [indent, List.replicate_succ', String.join_append, String.toList_append]
  rfl

/-- The characters of lines. -/
def chars (ls : List Line) : List Char := (render ls).toList

theorem chars_append (ls ls' : List Line) : chars (ls ++ ls') = chars ls ++ chars ls' := by
  rw [chars, render, List.map_append, String.join_append, String.toList_append]
  rfl

theorem chars_cons (depth : Nat) (text : String) (ls : List Line) :
    chars (⟨depth, text⟩ :: ls) = indent depth ++ (text.toList ++ '\n' :: chars ls) := by
  rw [chars, render, List.map_cons, String.join_cons, String.toList_append, Line.render,
    String.toList_append, String.toList_append, List.append_assoc, List.append_assoc]
  rfl

/-! ## Depth -/

/-- What follows does not start as deep as this. -/
def Shallower (depth : Nat) (r : List Char) : Prop := ¬ indent depth <+: r

theorem Shallower.succ {depth : Nat} {r : List Char} (h : Shallower depth r) :
    Shallower (depth + 1) r := by
  intro hprefix
  rw [indent_succ] at hprefix
  exact h ((List.prefix_append _ _).trans hprefix)

theorem shallower_nil (depth : Nat) : Shallower (depth + 1) [] := by
  rintro ⟨r, hr⟩
  rw [indent_succ, List.append_assoc] at hr
  exact List.cons_ne_nil _ _ (List.append_eq_nil_iff.1 hr).2

/-- A line that starts at a depth is not one that starts deeper. -/
theorem shallower_of_ne {c : Char} (h : c ≠ ' ') (depth : Nat) (r : List Char) :
    Shallower (depth + 1) (indent depth ++ c :: r) := by
  intro hprefix
  rw [indent_succ, List.prefix_append_right_inj, List.cons_prefix_cons] at hprefix
  exact h hprefix.1.symm

/-! ## Reading back -/

/-- The lines of such nodes can be read: they do not start with a blank, and each can be told
from what follows it. -/
structure Legible (text : β → String) (L : β → Prop) : Prop where
  /-- A line starts with a character that is no blank. -/
  front {x} : L x → ∃ c cs, (text x).toList = c :: cs ∧ c ≠ ' '
  /-- A line can be told from what follows its end. -/
  ends {x y r r'} : L x → L y →
    (text x).toList ++ '\n' :: r = (text y).toList ++ '\n' :: r' → x = y ∧ r = r'

namespace Forest

variable {text : β → String} {L : β → Prop}

theorem chars_lines_cons (x : β) (below rest : Forest β) (depth : Nat) (r : List Char) :
    chars ((cons x below rest).lines text depth) ++ r =
      indent depth ++ ((text x).toList ++ '\n' ::
        (chars (below.lines text (depth + 1)) ++ (chars (rest.lines text depth) ++ r))) := by
  rw [lines, List.cons_append, chars_cons, chars_append]
  simp only [List.append_assoc, List.cons_append]

/-- The nodes at a depth are shallower than what is below one of them. -/
theorem shallower_chars (hL : Legible text L) {F : Forest β} (hF : F.All L)
    {depth : Nat} {r : List Char} (hr : Shallower depth r) :
    Shallower (depth + 1) (chars (F.lines text depth) ++ r) := by
  cases hF with
  | nil => exact hr.succ
  | cons hx _ _ =>
    obtain ⟨c, cs, hc, hblank⟩ := hL.front hx
    rw [chars_lines_cons, hc, List.cons_append]
    exact shallower_of_ne hblank _ _

/-- A node is not shallower than its depth. -/
theorem not_shallower_cons (x : β) (below rest : Forest β) (depth : Nat) (r : List Char) :
    ¬ Shallower depth (chars ((cons x below rest).lines text depth) ++ r) := by
  rw [chars_lines_cons]
  exact not_not_intro (List.prefix_append _ _)

/-- **The text of a forest settles the forest and where it ends**, if what follows is
shallower. -/
theorem chars_append_inj (hL : Legible text L) {F G : Forest β} {depth : Nat} {r r' : List Char}
    (hF : F.All L) (hG : G.All L) (hr : Shallower depth r) (hr' : Shallower depth r')
    (h : chars (F.lines text depth) ++ r = chars (G.lines text depth) ++ r') :
    F = G ∧ r = r' := by
  induction hF generalizing G depth r r' with
  | nil =>
    cases hG with
    | nil => exact ⟨rfl, h⟩
    | @cons x below rest =>
      have hr : Shallower depth (chars (lines text depth .nil) ++ r) := hr
      rw [h] at hr
      exact absurd hr (not_shallower_cons x below rest depth r')
  | @cons x below rest hx _ hrest ihbelow ihrest =>
    cases hG with
    | nil =>
      have hr' : Shallower depth (chars (lines text depth .nil) ++ r') := hr'
      rw [← h] at hr'
      exact absurd hr' (not_shallower_cons x below rest depth r)
    | @cons y below' rest' hy hbelow' hrest' =>
      rw [chars_lines_cons, chars_lines_cons] at h
      obtain ⟨rfl, hlines⟩ := hL.ends hx hy (List.append_cancel_left h)
      -- the next node at this depth ends what is below this one
      obtain ⟨rfl, hlines'⟩ := ihbelow hbelow' (shallower_chars hL hrest hr)
        (shallower_chars hL hrest' hr') hlines
      obtain ⟨rfl, hend⟩ := ihrest hrest' hr hr' hlines'
      exact ⟨rfl, hend⟩

end Forest

end PairDict.Outline
