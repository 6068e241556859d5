import PairDict.Tree

/-! # Walking over a tree

A walk visits a node before its children and the children in the order in which
the source spells them.  It asks at each node whether to go on to the children;
a node that it does not **enter** is still visited itself.

The names that statements bind or assign are nodes like any other name.
-/
namespace PairDict

variable {α : Type}

/-- A node of a tree. -/
inductive Node (α : Type) where
  /-- The root. -/
  | program (p : Program α)
  /-- A sequence, or the part of one after some statement. -/
  | seq (s : Seq α)
  /-- A statement or a block. -/
  | stmt (s : Stmt α)
  /-- An expression. -/
  | expr (e : Expr α)

namespace Node

/-- The kind of a node. -/
def kind : Node α → String
  | .program _ => "Program"
  | .seq (.empty _) => "EmptyStmtSeq"
  | .seq (.cons ..) => "NonEmptyStmtSeq"
  | .stmt (.var ..) => "VarStmt"
  | .stmt (.assign ..) => "AssignStmt"
  | .stmt (.print ..) => "PrintStmt"
  | .stmt (.ifThen ..) | .stmt (.ifElse ..) => "IfStmt"
  | .stmt (.forEach ..) => "ForStmt"
  | .stmt (.block _) => "Block"
  | .expr (.name ..) => "Name"
  | .expr (.int ..) => "IntLit"
  | .expr (.bool ..) => "BoolLit"
  | .expr (.pair ..) => "PairLit"
  | .expr (.unary ..) | .expr (.binary ..) => "Operation"
  | .expr (.entry ..) | .expr (.select ..) | .expr (.store ..) => "DictExpr"

/-- The annotation of a node. -/
def ann : Node α → α
  | .program p => p.ann
  | .seq s => s.ann
  | .stmt s => s.ann
  | .expr e => e.ann

/-- The closing brace, if the node is a block. -/
def close? : Node α → Option α
  | .stmt (.block b) => some b.close
  | _ => none

/-- A visit to a node, and to what its children hold if it is entered. -/
def visit (enter : Node α → Bool) (n : Node α) (children : List (Node α)) : List (Node α) :=
  n :: if enter n then children else []

end Node

/-- The walk from an expression. -/
def Expr.walk (enter : Node α → Bool) : Expr α → List (Node α)
  | .name a s => Node.visit enter (.expr (.name a s)) []
  | .int a n => Node.visit enter (.expr (.int a n)) []
  | .bool a b => Node.visit enter (.expr (.bool a b)) []
  | .pair a x y => Node.visit enter (.expr (.pair a x y)) (x.walk enter ++ y.walk enter)
  | .unary a op x => Node.visit enter (.expr (.unary a op x)) (x.walk enter)
  | .binary a op x y =>
    Node.visit enter (.expr (.binary a op x y)) (x.walk enter ++ y.walk enter)
  | .entry a k v => Node.visit enter (.expr (.entry a k v)) (k.walk enter ++ v.walk enter)
  | .select a op d k =>
    Node.visit enter (.expr (.select a op d k)) (d.walk enter ++ k.walk enter)
  | .store a op d k v =>
    Node.visit enter (.expr (.store a op d k v))
      (d.walk enter ++ k.walk enter ++ v.walk enter)

mutual

/-- The walk from a statement. -/
def Stmt.walk (enter : Node α → Bool) : Stmt α → List (Node α)
  | .var a x e =>
    Node.visit enter (.stmt (.var a x e)) (x.toExpr.walk enter ++ e.walk enter)
  | .assign a x e =>
    Node.visit enter (.stmt (.assign a x e)) (x.toExpr.walk enter ++ e.walk enter)
  | .print a e => Node.visit enter (.stmt (.print a e)) (e.walk enter)
  | .ifThen a c t => Node.visit enter (.stmt (.ifThen a c t)) (c.walk enter ++ t.walk enter)
  | .ifElse a c t e =>
    Node.visit enter (.stmt (.ifElse a c t e)) (c.walk enter ++ t.walk enter ++ e.walk enter)
  | .forEach a x d b =>
    Node.visit enter (.stmt (.forEach a x d b))
      (x.toExpr.walk enter ++ d.walk enter ++ b.walk enter)
  | .block b => b.walk enter

/-- The walk from a block. -/
def Block.walk (enter : Node α → Bool) : Block α → List (Node α)
  | .mk a s close => Node.visit enter (.stmt (.block (.mk a s close))) (s.walk enter)

/-- The walk from a sequence. -/
def Seq.walk (enter : Node α → Bool) : Seq α → List (Node α)
  | .empty a => Node.visit enter (.seq (.empty a)) []
  | .cons a s rest => Node.visit enter (.seq (.cons a s rest)) (s.walk enter ++ rest.walk enter)

end

/-- The walk from a program. -/
def Program.walk (enter : Node α → Bool) (p : Program α) : List (Node α) :=
  Node.visit enter (.program p) (p.body.walk enter)

namespace Node

/-- The walk from a node. -/
def walk (enter : Node α → Bool) : Node α → List (Node α)
  | .program p => p.walk enter
  | .seq s => s.walk enter
  | .stmt s => s.walk enter
  | .expr e => e.walk enter

end Node

/-- Every node of a program, in the order of a walk. -/
def Program.nodes (p : Program α) : List (Node α) := p.walk fun _ => true

end PairDict
