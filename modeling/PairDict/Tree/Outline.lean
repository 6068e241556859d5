import PairDict.Tree.Walk

/-! # Trees as outlines

An outline shows a tree as text, **one node a line**, with children below their
parent and two blanks deeper.  A sequence has no line of its own: its statements
stand one below the other.  A child whose role needs saying stands below a line
that names the role.

What an annotation shows in the line of its node is for the caller to say: the
position, or the position and the type.
-/
namespace PairDict

variable {α : Type}

namespace Outline

/-- A line of an outline. -/
structure Line where
  /-- How many levels deep the line stands. -/
  depth : Nat
  /-- What it says. -/
  text : String
  deriving DecidableEq, Repr

/-- The line with its indentation and its end. -/
def Line.render (l : Line) : String :=
  String.join (List.replicate l.depth "  ") ++ l.text ++ "\n"

/-- The text of an outline. -/
def render (lines : List Line) : String := String.join (lines.map Line.render)

/-- The lines of a child below a line that names its role. -/
def role (depth : Nat) (title : String) (child : Nat → List Line) : List Line :=
  ⟨depth, title ++ ":"⟩ :: child (depth + 1)

end Outline

open Outline (Line role)

/-- The outline of an expression. -/
def Expr.outline (label : α → String) (depth : Nat) : Expr α → List Line
  | .name a s => [⟨depth, "Name " ++ s ++ " " ++ label a⟩]
  | .int a n => [⟨depth, "IntLit " ++ toString n.toInt ++ " " ++ label a⟩]
  | .bool a b => [⟨depth, "BoolLit " ++ (if b then "true" else "false") ++ " " ++ label a⟩]
  | .pair a x y =>
    ⟨depth, "PairLit " ++ label a⟩ :: x.outline label (depth + 1) ++ y.outline label (depth + 1)
  | .unary a op x =>
    ⟨depth, "UnaryExpr " ++ op.text ++ " " ++ label a⟩ :: x.outline label (depth + 1)
  | .binary a op x y =>
    ⟨depth, "BinaryExpr " ++ op.text ++ " " ++ label a⟩ ::
      x.outline label (depth + 1) ++ y.outline label (depth + 1)
  | .entry a k v =>
    ⟨depth, "DictExpr " ++ DictOp.create.text ++ " " ++ label a⟩ ::
      role (depth + 1) "Key" (fun d => k.outline label d) ++
      role (depth + 1) "Value" (fun d => v.outline label d)
  | .select a op b k =>
    ⟨depth, "DictExpr " ++ op.toDictOp.text ++ " " ++ label a⟩ ::
      role (depth + 1) "Dict" (fun d => b.outline label d) ++
      role (depth + 1) "Key" (fun d => k.outline label d)
  | .store a op b k v =>
    ⟨depth, "DictExpr " ++ op.text ++ " " ++ label a⟩ ::
      role (depth + 1) "Dict" (fun d => b.outline label d) ++
      role (depth + 1) "Key" (fun d => k.outline label d) ++
      role (depth + 1) "Value" (fun d => v.outline label d)

mutual

/-- The outline of a statement. -/
def Stmt.outline (label : α → String) (depth : Nat) : Stmt α → List Line
  | .var a x e =>
    ⟨depth, "VarStmt " ++ label a⟩ :: ⟨depth + 1, "Name: " ++ x.name⟩ ::
      role (depth + 1) "Value" (fun d => e.outline label d)
  | .assign a x e =>
    ⟨depth, "AssignStmt " ++ label a⟩ :: ⟨depth + 1, "Name: " ++ x.name⟩ ::
      role (depth + 1) "Value" (fun d => e.outline label d)
  | .print a e => ⟨depth, "PrintStmt " ++ label a⟩ :: e.outline label (depth + 1)
  | .ifThen a c t =>
    ⟨depth, "IfStmt " ++ label a⟩ ::
      role (depth + 1) "Cond" (fun d => c.outline label d) ++
      role (depth + 1) "Then" (fun d => t.outline label d)
  | .ifElse a c t e =>
    ⟨depth, "IfStmt " ++ label a⟩ ::
      role (depth + 1) "Cond" (fun d => c.outline label d) ++
      role (depth + 1) "Then" (fun d => t.outline label d) ++
      role (depth + 1) "Else" (fun d => e.outline label d)
  | .forEach a x e b =>
    ⟨depth, "ForStmt " ++ label a⟩ :: ⟨depth + 1, "Var: " ++ x.name⟩ ::
      role (depth + 1) "Dict" (fun d => e.outline label d) ++
      role (depth + 1) "Body" (fun d => b.outline label d)
  | .block b => b.outline label depth

/-- The outline of a block. -/
def Block.outline (label : α → String) (depth : Nat) : Block α → List Line
  | .mk a s _ => ⟨depth, "Block " ++ label a⟩ :: s.outline label (depth + 1)

/-- The outlines of the statements of a sequence. -/
def Seq.outline (label : α → String) (depth : Nat) : Seq α → List Line
  | .empty _ => []
  | .cons _ s rest => s.outline label depth ++ rest.outline label depth

end

/-- The outline of a program. -/
def Program.outline (label : α → String) (p : Program α) : List Line :=
  ⟨0, "Program " ++ label p.ann⟩ :: p.body.outline label 1

/-- The outline of any node. -/
def Node.outline (label : α → String) : Node α → List Line
  | .program p => p.outline label
  | .seq s => s.outline label 0
  | .stmt s => s.outline label 0
  | .expr e => e.outline label 0

end PairDict
