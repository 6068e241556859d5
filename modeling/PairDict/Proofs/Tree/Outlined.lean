import PairDict.Proofs.Tree.Forest
import PairDict.Proofs.Typing.Noted
import PairDict.Proofs.Typing.Printed

/-! # Outlines keep what they show of a tree

The outline of a tree leaves out the annotations that its document leaves out: those of bound
names, of sequences and of closing braces.  It depends on nothing but the rest, `Program.shown`
(`Program.outline_shown`), and it keeps all of it: every line can be read, indentation gives the
forest of the lines (`Outline.Forest.chars_append_inj`), and the forest gives what is shown.

A position starts with the name of its file, which may hold anything, even what looks like
another line.  It is the same name throughout a source, so it is read as such.  A type behind a
position is read to its end.
-/
namespace PairDict

open Outline (Forest chars)

variable {α γ : Type} {P : γ → Prop} {Q : α → Prop} {key : α → γ} {label : α → String}

/-! ## What an outline shows -/

theorem Expr.outline_shown (label : α → String) (e : Expr α) (depth : Nat) :
    e.shown.outline (shownLabel label) depth = e.outline label depth := by
  unfold shown
  induction e generalizing depth with
  | name | int | bool => rfl
  | pair a x y ihx ihy | binary a op x y ihx ihy =>
    rw [map, outline, outline, ihx, ihy]
    rfl
  | unary a op x ih =>
    rw [map, outline, outline, ih]
    rfl
  | entry a x y ihx ihy | select a op x y ihx ihy =>
    simp only [map, outline, Outline.role, ihx, ihy]
    rfl
  | store a op d k v ihd ihk ihv =>
    simp only [map, outline, Outline.role, ihd, ihk, ihv]
    rfl

mutual

theorem Stmt.outline_shown (label : α → String) : ∀ (s : Stmt α) (depth : Nat),
    s.shown.outline (shownLabel label) depth = s.outline label depth
  | .var a x e, _ | .assign a x e, _ | .print a e, _ => by
    simp only [Stmt.shown, Stmt.outline, Outline.role, Expr.outline_shown]
    rfl
  | .ifThen a c t, _ => by
    simp only [Stmt.shown, Stmt.outline, Outline.role, Expr.outline_shown,
      Block.outline_shown label t]
    rfl
  | .ifElse a c t e, _ => by
    simp only [Stmt.shown, Stmt.outline, Outline.role, Expr.outline_shown,
      Block.outline_shown label t, Block.outline_shown label e]
    rfl
  | .forEach a x d b, _ => by
    simp only [Stmt.shown, Stmt.outline, Outline.role, Expr.outline_shown,
      Block.outline_shown label b]
    rfl
  | .block b, depth => by rw [Stmt.shown, Stmt.outline, Stmt.outline, Block.outline_shown label b]

theorem Block.outline_shown (label : α → String) : ∀ (b : Block α) (depth : Nat),
    b.shown.outline (shownLabel label) depth = b.outline label depth
  | .mk a s close, _ => by
    rw [Block.shown, Block.outline, Block.outline, Seq.outline_shown label s]
    rfl

theorem Seq.outline_shown (label : α → String) : ∀ (s : Seq α) (depth : Nat),
    s.shown.outline (shownLabel label) depth = s.outline label depth
  | .empty _, _ => rfl
  | .cons a s rest, _ => by
    rw [Seq.shown, Seq.outline, Seq.outline, Stmt.outline_shown label s,
      Seq.outline_shown label rest]

end

/-- **An outline depends on nothing but what it shows.** -/
theorem Program.outline_shown (label : α → String) (p : Program α) :
    p.shown.outline (shownLabel label) = p.outline label := by
  rw [shown, outline, outline, Seq.outline_shown]
  rfl

/-! ## Programs -/

/-- **The outline of a program settles what it shows.**  The programs may hold more than is
compared, of which the part that `key` gives stems from a parser. -/
theorem Program.outline_inj {P' : γ → Prop} (hlabel : Caption.Delimited label Q)
    (hQ : ∀ a, P (key a) → Q a) (hQ' : ∀ a, P' (key a) → Q a) {t t' : Program α}
    (ht : (t.map key).Built P) (ht' : (t'.map key).Built P') (hp : t.Parseable)
    (hp' : t'.Parseable)
    (h : Outline.render (t.outline label) = Outline.render (t'.outline label)) :
    (t.map key).shown = (t'.map key).shown := by
  have hlegible := Caption.legible hlabel
  have hlines : ∀ t : Program α,
      t.outline label = ⟨0, (Caption.plain "Program" t.ann).text label⟩ ::
        t.body.forest.lines (Caption.text label) 1 := by
    intro t
    rw [Seq.lines_forest, outline]
    simp [Caption.text]
  have hchars : chars (t.outline label) = chars (t'.outline label) := congrArg String.toList h
  rw [hlines, hlines, Outline.chars_cons, Outline.chars_cons] at hchars
  obtain ⟨hann, hbody⟩ := hlegible.ends (.plain (by decide) (hQ _ ht.ann))
    (.plain (by decide) (hQ' _ ht'.ann)) (List.append_cancel_left hchars)
  -- nothing follows the statements, which are one level deep
  rw [← List.append_nil (chars _), ← List.append_nil (chars (t'.body.forest.lines _ _))] at hbody
  have hforest := (Forest.chars_append_inj hlegible (Seq.forest_legal hQ ht.body hp.2)
    (Seq.forest_legal hQ' ht'.body hp'.2) (Outline.shallower_nil 0) (Outline.shallower_nil 0)
    hbody).1
  have hshown : (t.body.map key).shown = (t'.body.map key).shown :=
    Seq.forest_inj hp.2 hp'.2 hforest
  simp only [map, shown, (Caption.plain.inj hann).2, hshown]

/-! ## Labels -/

/-- The position is one of a source of this name. -/
def Pos.Within (file : String) (p : Pos) : Prop := p.isValid = true ∧ p.file = file

theorem Pos.delimited (file : String) : Caption.Delimited Pos.text (Pos.Within file) := by
  intro p q r r' hp hq h
  obtain ⟨heq, hrest⟩ := text_append_inj hp.1 hq.1 (hp.2.trans hq.2.symm)
    (Numeral.ends_cons rfl r) (Numeral.ends_cons rfl r') h
  exact ⟨heq, (List.cons.inj hrest).2⟩

/-- What follows the position where a note is shown. -/
def Note.typeText (n : Note Pos) : List Char :=
  match n.type with
  | none => []
  | some t => ' ' :: ':' :: ' ' :: t.text.toList

theorem Note.toList_label (n : Note Pos) :
    n.label.toList = n.ann.text.toList ++ n.typeText := by
  obtain ⟨a, _ | t⟩ := n
  · exact (List.append_nil _).symm
  · rw [label, String.toList_append, String.toList_append, List.append_assoc]
    rfl

/-- A note can be told from what follows its line, since it is read to the end. -/
theorem Note.delimited (file : String) :
    Caption.Delimited Note.label fun n => Pos.Within file n.ann := by
  intro n n' r r' hn hn' h
  have hends : ∀ (n : Note Pos) r, Numeral.Ends (n.typeText ++ '\n' :: r) := by
    rintro ⟨a, _ | t⟩ r
    · exact Numeral.ends_cons rfl r
    · exact Numeral.ends_cons rfl _
  rw [toList_label, toList_label, List.append_assoc, List.append_assoc] at h
  obtain ⟨hann, htype⟩ := Pos.text_append_inj hn.1 hn'.1 (hn.2.trans hn'.2.symm) (hends n r)
    (hends n' r') h
  obtain ⟨a, _ | t⟩ := n
  · obtain ⟨a', _ | t'⟩ := n'
    · cases hann
      exact ⟨rfl, (List.cons.inj htype).2⟩
    · cases htype
  · obtain ⟨a', _ | t'⟩ := n'
    · cases htype
    · have htypes : [' ', ':', ' '] ++ (t.text.toList ++ '\n' :: r) =
          [' ', ':', ' '] ++ (t'.text.toList ++ '\n' :: r') := htype
      obtain ⟨rfl, hrest⟩ := Ty.text_append_inj (List.append_cancel_left htypes)
      cases hann
      exact ⟨rfl, (List.cons.inj hrest).2⟩

namespace Pipeline

/-- **The outline of a program loses nothing that it shows.**  Of two programs whose sources
have one name, the outlines with positions are the same text if and only if the programs are the
same up to the annotations that outlines leave out; and they are the same up to these if the
outlines with positions and types are, which a check has recorded. -/
theorem outline_settles_program {src src' : Source} {p q : Program Pos}
    (hp : parse src = .ok p) (hq : parse src' = .ok q) (hname : src.name = src'.name) :
    (Outline.render (p.outline Pos.text) = Outline.render (q.outline Pos.text) ↔
      p.shown = q.shown) ∧
    (Outline.render (p.check.2.outline Note.label) =
      Outline.render (q.check.2.outline Note.label) → p.shown = q.shown) := by
  have hwithin : ∀ a, src.TokenAt a → Pos.Within src.name a :=
    fun a ha => ⟨ha.isValid, ha.file_eq⟩
  have hwithin' : ∀ a, src'.TokenAt a → Pos.Within src.name a :=
    fun a ha => ⟨ha.isValid, ha.file_eq.trans hname.symm⟩
  have hpBuilt := built_of_parse hp
  have hqBuilt := built_of_parse hq
  refine ⟨⟨fun h => ?_, fun h => ?_⟩, fun h => ?_⟩
  · rw [← p.map_id, ← q.map_id]
    exact Program.outline_inj (Pos.delimited src.name) hwithin hwithin'
      (p.map_id.symm ▸ hpBuilt) (q.map_id.symm ▸ hqBuilt) (parseable_of_parse hp)
      (parseable_of_parse hq) h
  · rw [← p.outline_shown, ← q.outline_shown, h]
  · rw [← p.check_tree_map_ann, ← q.check_tree_map_ann]
    refine Program.outline_inj (Note.delimited src.name) (fun n => hwithin n.ann)
      (fun n => hwithin' n.ann) (p.check_tree_map_ann.symm ▸ hpBuilt)
      (q.check_tree_map_ann.symm ▸ hqBuilt) ?_ ?_ h
    · rw [← Program.parseable_map Note.ann, p.check_tree_map_ann]
      exact parseable_of_parse hp
    · rw [← Program.parseable_map Note.ann, q.check_tree_map_ann]
      exact parseable_of_parse hq

/-- A separator at the end of `print 1` moves only the end of the sequence, which outlines leave
out; the name of the file looks like the end of a line and another line. -/
theorem outline_settles_program_separator :
    ∃ p q : Program Pos,
      parse { name := "f:1\n  Name x f", bytes := Utf8.ofString "print 1" } = .ok p ∧
      parse { name := "f:1\n  Name x f", bytes := Utf8.ofString "print 1;" } = .ok q ∧
      Outline.render (p.outline Pos.text) = Outline.render (q.outline Pos.text) ∧
      Outline.render (p.check.2.outline Note.label) =
        Outline.render (q.check.2.outline Note.label) ∧
      p.shown = q.shown := by
  let file := "f:1\n  Name x f"
  have htokens : (Source.mk file (Utf8.ofString "print 1") none).tokens =
      .cons ⟨.keyword .printKw, ⟨file, 1, 1⟩⟩ (.cons ⟨.num 1, ⟨file, 1, 7⟩⟩
        (.eof ⟨file, 1, 8⟩)) := by decide +kernel
  have htokens' : (Source.mk file (Utf8.ofString "print 1;") none).tokens =
      .cons ⟨.keyword .printKw, ⟨file, 1, 1⟩⟩ (.cons ⟨.num 1, ⟨file, 1, 7⟩⟩
        (.cons ⟨.symbol .semi, ⟨file, 1, 8⟩⟩ (.eof ⟨file, 1, 9⟩))) := by decide +kernel
  have hp : parse { name := file, bytes := Utf8.ofString "print 1" } =
      .ok ⟨⟨file, 1, 1⟩, .cons ⟨file, 1, 1⟩ (.print ⟨file, 1, 1⟩ (.int ⟨file, 1, 7⟩ 1))
        (.empty ⟨file, 1, 8⟩)⟩ := by
    rw [parse, htokens, TokenStream.program_print rfl (Parser.operand_of_num.2 ⟨rfl, rfl⟩)
      (.inl rfl)]
  have hq : parse { name := file, bytes := Utf8.ofString "print 1;" } =
      .ok ⟨⟨file, 1, 1⟩, .cons ⟨file, 1, 1⟩ (.print ⟨file, 1, 1⟩ (.int ⟨file, 1, 7⟩ 1))
        (.empty ⟨file, 1, 9⟩)⟩ := by
    rw [parse, htokens', TokenStream.program_print rfl (Parser.operand_of_num.2 ⟨rfl, rfl⟩)
      (.inr ⟨_, rfl⟩)]
  exact ⟨_, _, hp, hq, rfl, rfl, (outline_settles_program hp hq rfl).2 rfl⟩

end Pipeline

end PairDict
