import Mathlib.Data.List.Forall2
import PairDict.Proofs.Tree.Address
import PairDict.Proofs.Tree.Tour
import PairDict.Tree.Outline

/-! # The lines of expressions

Some lines of an outline show expressions, and start with words of their own (`Expr.lineWords`).
The others show statements, names that are bound or assigned, or the roles of what stands below,
and start with other words (`Outline.otherStarts`).

The expressions that have lines are those which no statement binds or assigns, and `Node.exprAt`
tells their addresses.  A node has its own line in front of those of its children
(`Node.exprLines_outlineAt`), and so the lines of expressions stand in the order of a walk: for
each address there is one line, and it shows the expression at the address
(`Node.lines_of_exprs`).
-/
namespace PairDict

variable {α β : Type}

open Outline (Line)

/-- The words with which the lines of expressions start. -/
def Expr.lineWords : List String :=
  ["Name", "IntLit", "BoolLit", "PairLit", "UnaryExpr", "BinaryExpr", "DictExpr"]

/-- How the line of an expression starts. -/
def Expr.heading : Expr α → String
  | .name _ s => "Name " ++ s
  | .int _ n => "IntLit " ++ toString n.toInt
  | .bool _ b => "BoolLit " ++ (if b then "true" else "false")
  | .pair _ _ _ => "PairLit"
  | .unary _ op _ => "UnaryExpr " ++ op.text
  | .binary _ op _ _ => "BinaryExpr " ++ op.text
  | .entry _ _ _ => "DictExpr " ++ DictOp.create.text
  | .select _ op _ _ => "DictExpr " ++ op.toDictOp.text
  | .store _ op _ _ _ => "DictExpr " ++ op.text

theorem Expr.heading_map (f : α → β) (e : Expr α) : (e.map f).heading = e.heading := by
  cases e <;> rfl

namespace Outline

/-- The line shows an expression. -/
def Line.OfExpr (l : Line) : Prop := ∃ w ∈ Expr.lineWords, (w ++ " ").toList <+: l.text.toList

instance (l : Line) : Decidable l.OfExpr :=
  inferInstanceAs (Decidable (∃ w ∈ Expr.lineWords, _))

/-- How the other lines start. -/
def otherStarts : List String :=
  ["Program ", "VarStmt ", "AssignStmt ", "PrintStmt ", "IfStmt ", "ForStmt ", "Block ",
   "Name: ", "Var: ", "Key:", "Value:", "Dict:", "Cond:", "Then:", "Else:", "Body:"]

theorem Line.ofExpr_of_start {l : Line} {w r : String} (hw : w ∈ Expr.lineWords)
    (hl : l.text = w ++ " " ++ r) : l.OfExpr := by
  refine ⟨w, hw, ?_⟩
  rw [hl, String.toList_append (s := w ++ " ")]
  exact List.prefix_append _ _

theorem Line.not_ofExpr {l : Line} {start rest : String} (hstart : start ∈ otherStarts)
    (hl : l.text = start ++ rest) : ¬ l.OfExpr := by
  have hapart : ∀ start ∈ otherStarts, ∀ w ∈ Expr.lineWords,
      ¬ (w ++ " ").toList <+: start.toList ∧ ¬ start.toList <+: (w ++ " ").toList := by
    decide +kernel
  rintro ⟨w, hw, hfront⟩
  have hother : start.toList <+: l.text.toList := by
    rw [hl, String.toList_append]
    exact List.prefix_append _ _
  rcases List.prefix_or_prefix_of_prefix hfront hother with h | h
  · exact (hapart start hstart w hw).1 h
  · exact (hapart start hstart w hw).2 h

/-- The lines among these that show expressions. -/
def exprLines (ls : List Line) : List Line := ls.filter fun l => decide l.OfExpr

theorem exprLines_append (ls ls' : List Line) :
    exprLines (ls ++ ls') = exprLines ls ++ exprLines ls' :=
  List.filter_append ..

theorem exprLines_cons_other (start : String) (h : start ∈ otherStarts) (d : Nat) (rest : String)
    (ls : List Line) : exprLines (⟨d, start ++ rest⟩ :: ls) = exprLines ls :=
  List.filter_cons_of_neg (by simpa using Line.not_ofExpr h rfl)

theorem exprLines_role (title : String) (h : title ++ ":" ∈ otherStarts) (d : Nat)
    (child : Nat → List Line) : exprLines (role d title child) = exprLines (child (d + 1)) := by
  rw [role, ← String.append_empty (s := title ++ ":"), exprLines_cons_other _ h]

/-- The line of an expression shows an expression. -/
theorem exprLines_cons_expr (label : α → String) (d : Nat) (e : Expr α) (ls : List Line) :
    exprLines (⟨d, e.heading ++ " " ++ label e.ann⟩ :: ls) =
      ⟨d, e.heading ++ " " ++ label e.ann⟩ :: exprLines ls := by
  have hstart : ∃ w ∈ Expr.lineWords, ∃ r, e.heading ++ " " = w ++ " " ++ r := by
    cases e with
    | name a s => exact ⟨"Name", by decide, s ++ " ", by simp [Expr.heading, String.append_assoc]⟩
    | int a n =>
      exact ⟨"IntLit", by decide, toString n.toInt ++ " ",
        by simp [Expr.heading, String.append_assoc]⟩
    | bool a b =>
      exact ⟨"BoolLit", by decide, (if b then "true" else "false") ++ " ",
        by simp [Expr.heading, String.append_assoc]⟩
    | pair a x y => exact ⟨"PairLit", by decide, "", by simp [Expr.heading]⟩
    | unary a op x =>
      exact ⟨"UnaryExpr", by decide, op.text ++ " ", by simp [Expr.heading, String.append_assoc]⟩
    | binary a op x y =>
      exact ⟨"BinaryExpr", by decide, op.text ++ " ", by simp [Expr.heading, String.append_assoc]⟩
    | entry a k v =>
      exact ⟨"DictExpr", by decide, DictOp.create.text ++ " ",
        by simp [Expr.heading, String.append_assoc]⟩
    | select a op b k =>
      exact ⟨"DictExpr", by decide, op.toDictOp.text ++ " ",
        by simp [Expr.heading, String.append_assoc]⟩
    | store a op b k v =>
      exact ⟨"DictExpr", by decide, op.text ++ " ", by simp [Expr.heading, String.append_assoc]⟩
  obtain ⟨w, hw, r, hr⟩ := hstart
  refine List.filter_cons_of_pos (decide_eq_true (Line.ofExpr_of_start (r := r ++ label e.ann) hw ?_))
  rw [hr, String.append_assoc]

end Outline

namespace Node

/-- Whether there is an expression at an address, which is not that of a name that a statement
binds or assigns. -/
def exprAt : Node α → List Nat → Bool
  | .expr _, [] => true
  | _, [] => false
  | n, i :: path => !n.target i && n.children[i]?.any (·.exprAt path)

variable {label : α → String} {n c : Node α} {path : List Nat} {d i : Nat}

theorem exprAt_cons (hc : n.children[i]? = some c) (path : List Nat) :
    n.exprAt (i :: path) = (!n.target i && c.exprAt path) := by
  rw [exprAt, hc]
  rfl

theorem exprAt_iff : n.exprAt path = true ↔
    (∃ e, n.at? path = some (.expr e)) ∧ ¬ n.ChildAt target path := by
  induction path generalizing n with
  | nil =>
    rw [and_iff_left not_childAt_nil]
    cases n with
    | expr e => exact iff_of_true rfl ⟨e, rfl⟩
    | program p | seq s | stmt s =>
      refine iff_of_false Bool.false_ne_true ?_
      rintro ⟨e, he⟩
      cases he
  | cons i path ih =>
    cases hc : n.children[i]? with
    | none =>
      have hnone : n.at? (i :: path) = none := by
        rw [at?, hc]
        rfl
      rw [exprAt, hc, hnone, Option.any_none, Bool.and_false]
      refine iff_of_false Bool.false_ne_true ?_
      rintro ⟨⟨e, he⟩, -⟩
      cases he
    | some c =>
      rw [exprAt_cons hc, at?_cons hc, childAt_cons_iff hc, Bool.and_eq_true, ih]
      cases htarget : n.target i with
      | false => simp
      | true =>
        -- the name has nothing below it
        obtain ⟨x, rfl⟩ := name_of_target htarget hc
        refine iff_of_false (fun h => Bool.false_ne_true h.1) ?_
        rintro ⟨⟨e, he⟩, hnot⟩
        cases path with
        | nil => exact hnot (.inl ⟨rfl, rfl⟩)
        | cons j path => cases he

theorem exprAt_map (f : α → β) (n : Node α) (path : List Nat) :
    (n.map f).exprAt path = n.exprAt path := by
  induction path generalizing n with
  | nil => cases n <;> rfl
  | cons i path ih =>
    rw [exprAt, exprAt, target_map, children_map, List.getElem?_map]
    cases n.children[i]? with
    | none => rfl
    | some c => exact congrArg (!n.target i && ·) (ih c)

/-! ## Outlines -/

/-- The outline of a node at a depth. -/
def outlineAt (label : α → String) (depth : Nat) : Node α → List Line
  | .program p => p.outline label
  | .seq s => s.outline label depth
  | .stmt s => s.outline label depth
  | .expr e => e.outline label depth

/-- The line of a node, if it is an expression. -/
def ownLine (label : α → String) (depth : Nat) : Node α → List Line
  | .expr e => [⟨depth, e.heading ++ " " ++ label e.ann⟩]
  | _ => []

/-- The lines of expressions below the children of a node which are counted from `i` and stand
at a depth, without the names that the node binds or assigns. -/
def linesFrom (label : α → String) (depth : Nat) (n : Node α) (i : Nat) :
    List (Node α) → List Line
  | [] => []
  | c :: cs =>
    (if n.target i then [] else Outline.exprLines (c.outlineAt label depth)) ++
      linesFrom label depth n (i + 1) cs

open Outline (exprLines exprLines_append exprLines_cons_expr exprLines_cons_other exprLines_role)

theorem exprLines_outline_expr (label : α → String) (d : Nat) (e : Expr α) :
    ∃ d', exprLines (e.outline label d) =
      ⟨d, e.heading ++ " " ++ label e.ann⟩ ::
        linesFrom label d' (.expr e) 0 (Node.expr e).children := by
  cases e with
  | name a s => exact ⟨d, exprLines_cons_expr label d (.name a s) []⟩
  | int a n => exact ⟨d, exprLines_cons_expr label d (.int a n) []⟩
  | bool a b => exact ⟨d, exprLines_cons_expr label d (.bool a b) []⟩
  | pair a x y =>
    have hown : "PairLit " ++ label a = (Expr.pair a x y).heading ++ " " ++ label a := by
      rfl
    refine ⟨d + 1, ?_⟩
    rw [Expr.outline, hown]
    refine (exprLines_cons_expr label d (.pair a x y) _).trans ?_
    simp [exprLines_append, linesFrom, children, target, outlineAt]
  | unary a op x =>
    refine ⟨d + 1, (exprLines_cons_expr label d (.unary a op x) _).trans ?_⟩
    simp [linesFrom, children, target, outlineAt]
  | binary a op x y =>
    refine ⟨d + 1, (exprLines_cons_expr label d (.binary a op x y) _).trans ?_⟩
    simp [exprLines_append, linesFrom, children, target, outlineAt]
  | entry a k v =>
    refine ⟨d + 2, (exprLines_cons_expr label d (.entry a k v) _).trans ?_⟩
    simp [exprLines_append, exprLines_role "Key" (by decide), exprLines_role "Value" (by decide),
      linesFrom, children, target, outlineAt]
  | select a op b k =>
    refine ⟨d + 2, (exprLines_cons_expr label d (.select a op b k) _).trans ?_⟩
    simp [exprLines_append, exprLines_role "Dict" (by decide), exprLines_role "Key" (by decide),
      linesFrom, children, target, outlineAt]
  | store a op b k v =>
    refine ⟨d + 2, (exprLines_cons_expr label d (.store a op b k v) _).trans ?_⟩
    simp [exprLines_append, exprLines_role "Dict" (by decide), exprLines_role "Key" (by decide),
      exprLines_role "Value" (by decide), linesFrom, children, target, outlineAt]

theorem exprLines_outline_stmt (label : α → String) (d : Nat) (s : Stmt α) :
    ∃ d', exprLines (s.outline label d) =
      linesFrom label d' (.stmt s) 0 (Node.stmt s).children := by
  cases s with
  | var a x e =>
    refine ⟨d + 2, ?_⟩
    simp [Stmt.outline, exprLines_cons_other "VarStmt " (by decide),
      exprLines_cons_other "Name: " (by decide), exprLines_role "Value" (by decide), linesFrom,
      children, target, outlineAt]
  | assign a x e =>
    refine ⟨d + 2, ?_⟩
    simp [Stmt.outline, exprLines_cons_other "AssignStmt " (by decide),
      exprLines_cons_other "Name: " (by decide), exprLines_role "Value" (by decide), linesFrom,
      children, target, outlineAt]
  | print a e =>
    refine ⟨d + 1, ?_⟩
    simp [Stmt.outline, exprLines_cons_other "PrintStmt " (by decide), linesFrom, children,
      target, outlineAt]
  | ifThen a c t =>
    refine ⟨d + 2, ?_⟩
    simp [Stmt.outline, exprLines_append, exprLines_cons_other "IfStmt " (by decide),
      exprLines_role "Cond" (by decide), exprLines_role "Then" (by decide), linesFrom, children,
      target, outlineAt]
  | ifElse a c t e =>
    refine ⟨d + 2, ?_⟩
    simp [Stmt.outline, exprLines_append, exprLines_cons_other "IfStmt " (by decide),
      exprLines_role "Cond" (by decide), exprLines_role "Then" (by decide),
      exprLines_role "Else" (by decide), linesFrom, children, target, outlineAt]
  | forEach a x b body =>
    refine ⟨d + 2, ?_⟩
    simp [Stmt.outline, exprLines_append, exprLines_cons_other "ForStmt " (by decide),
      exprLines_cons_other "Var: " (by decide), exprLines_role "Dict" (by decide),
      exprLines_role "Body" (by decide), linesFrom, children, target, outlineAt]
  | block b =>
    obtain ⟨a, s, close⟩ := b
    refine ⟨d + 1, ?_⟩
    simp [Stmt.outline, Block.outline, Block.body, exprLines_cons_other "Block " (by decide),
      linesFrom, children, target, outlineAt]

/-- **The lines of expressions in the outline of a node** are its own line, if it is one, and
those below its children. -/
theorem exprLines_outlineAt (label : α → String) (d : Nat) (n : Node α) :
    ∃ d', exprLines (n.outlineAt label d) =
      n.ownLine label d ++ linesFrom label d' n 0 n.children := by
  cases n with
  | program p =>
    refine ⟨1, ?_⟩
    simp [outlineAt, Program.outline, ownLine, exprLines_cons_other "Program " (by decide),
      linesFrom, children, target]
  | seq s =>
    refine ⟨d, ?_⟩
    cases s with
    | empty a => rfl
    | cons a s rest =>
      simp [outlineAt, Seq.outline, ownLine, exprLines_append, linesFrom, children, target]
  | stmt s => exact exprLines_outline_stmt label d s
  | expr e => exact exprLines_outline_expr label d e

/-- The line shows the expression at an address. -/
def Shows (label : α → String) (n : Node α) (path : List Nat) (l : Line) : Prop :=
  ∃ e, n.at? path = some (.expr e) ∧ l.text = e.heading ++ " " ++ label e.ann

theorem shows_linesFrom {cs : List (Node α)}
    (hcs : ∀ j c, cs[j]? = some c → n.children[i + j]? = some c)
    (h : ∀ c ∈ cs, List.Forall₂ (c.Shows label) (c.addresses.filter c.exprAt)
      (exprLines (c.outlineAt label d))) :
    List.Forall₂ (n.Shows label) ((addressesFrom i cs).filter n.exprAt)
      (linesFrom label d n i cs) := by
  induction cs generalizing i with
  | nil =>
    rw [addressesFrom]
    exact .nil
  | cons c cs ih =>
    obtain ⟨hc, hrest⟩ := List.forall_mem_cons.1 h
    have hchild : n.children[i]? = some c := hcs 0 c rfl
    have hnext := ih (i := i + 1) (fun j c' hc' => by
      rw [Nat.add_right_comm, Nat.add_assoc]
      exact hcs (j + 1) c' hc') hrest
    rw [addressesFrom, linesFrom, List.filter_append, List.filter_map]
    refine List.rel_append ?_ hnext
    cases htarget : n.target i with
    | true =>
      have hnone : c.addresses.filter (n.exprAt ∘ (i :: ·)) = [] := by
        refine List.filter_eq_nil_iff.2 fun path _ => ?_
        rw [Function.comp_apply, exprAt_cons hchild, htarget]
        exact Bool.false_ne_true
      rw [hnone]
      exact .nil
    | false =>
      have hsame : n.exprAt ∘ (i :: ·) = c.exprAt := by
        funext path
        rw [Function.comp_apply, exprAt_cons hchild, htarget]
        rfl
      rw [hsame, List.forall₂_map_left_iff]
      refine hc.imp fun path l hshows => ?_
      obtain ⟨e, hat, htext⟩ := hshows
      exact ⟨e, (at?_cons hchild path).trans hat, htext⟩

/-- **For every address of an expression there is one line**, in the order of a walk, and it
shows the expression at the address. -/
theorem lines_of_exprs (label : α → String) (n : Node α) (d : Nat) :
    List.Forall₂ (n.Shows label) (n.addresses.filter n.exprAt)
      (exprLines (n.outlineAt label d)) := by
  induction n using induct generalizing d with
  | step n ih =>
    obtain ⟨d', hlines⟩ := exprLines_outlineAt label d n
    have hbelow : List.Forall₂ (n.Shows label) ((addressesFrom 0 n.children).filter n.exprAt)
        (linesFrom label d' n 0 n.children) :=
      shows_linesFrom (fun j c hc => by rwa [Nat.zero_add]) fun c hc => ih c hc d'
    rw [hlines, addresses]
    cases n with
    | expr e => exact .cons ⟨e, rfl, rfl⟩ hbelow
    | program p | seq s | stmt s => exact hbelow

end Node

end PairDict
