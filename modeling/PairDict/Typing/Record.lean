import PairDict.Tree.Walk
import PairDict.Typing.Check

/-! # What a check records

A checked tree holds a type at every expression that was given one.  Here these
types are listed, in the order in which a walk visits the expressions.  They are
those of the expressions that may be evaluated, among which neither a declared name
is nor the name on the left of an assignment.
-/
namespace PairDict

variable {α : Type}

/-- An expression and everything inside it, in the order of a walk. -/
def Expr.parts : Expr α → List (Expr α)
  | .name a s => [.name a s]
  | .int a n => [.int a n]
  | .bool a b => [.bool a b]
  | .pair a x y => .pair a x y :: (x.parts ++ y.parts)
  | .unary a op x => .unary a op x :: x.parts
  | .binary a op x y => .binary a op x y :: (x.parts ++ y.parts)
  | .entry a k v => .entry a k v :: (k.parts ++ v.parts)
  | .select a op d k => .select a op d k :: (d.parts ++ k.parts)
  | .store a op d k v => .store a op d k v :: (d.parts ++ k.parts ++ v.parts)

mutual

/-- The expressions that a statement may evaluate. -/
def Stmt.exprs : Stmt α → List (Expr α)
  | .var _ _ e | .assign _ _ e | .print _ e => e.parts
  | .ifThen _ c t => c.parts ++ t.exprs
  | .ifElse _ c t e => c.parts ++ t.exprs ++ e.exprs
  | .forEach _ _ d b => d.parts ++ b.exprs
  | .block b => b.exprs

/-- The expressions that a block may evaluate. -/
def Block.exprs : Block α → List (Expr α)
  | .mk _ s _ => s.exprs

/-- The expressions that a sequence may evaluate. -/
def Seq.exprs : Seq α → List (Expr α)
  | .empty _ => []
  | .cons _ s rest => s.exprs ++ rest.exprs

end

namespace Program

/-- The recorded types of expressions: the kind of the node, its annotation and
its type. -/
def recordedTypes (p : Program (Note α)) : List (String × α × Ty) :=
  p.body.exprs.filterMap fun e => e.ann.type.map fun t => ((Node.expr e).kind, e.ann.ann, t)

end Program

end PairDict
