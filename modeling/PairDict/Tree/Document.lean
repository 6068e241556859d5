import PairDict.Text.Json
import PairDict.Tree.Walk

/-! # Trees as JSON documents

Every node becomes an object that names its kind and shows its annotation; a
sequence becomes the list of its statements.  The members of an object are in
the order of their keys.  The annotations of bound names, of sequences and of
closing braces are not shown.
-/
namespace PairDict

variable {α : Type}

/-- The document of an expression, which shows annotations by `label`. -/
def Expr.toJson (label : α → String) : Expr α → Json
  | .name a s => .ofFields [("pos", .text (label a)), ("type", .text "Name"), ("value", .text s)]
  | .int a n =>
    .ofFields [("pos", .text (label a)), ("type", .text "IntLit"), ("value", .int n.toInt)]
  | .bool a b =>
    .ofFields [("pos", .text (label a)), ("type", .text "BoolLit"), ("value", .bool b)]
  | .pair a x y =>
    .ofFields [("pos", .text (label a)), ("type", .text "PairLit"), ("x", x.toJson label),
      ("y", y.toJson label)]
  | .unary a op x =>
    .ofFields [("op", .text op.text), ("pos", .text (label a)), ("type", .text "Operation"),
      ("x", x.toJson label)]
  | .binary a op x y =>
    .ofFields [("op", .text op.text), ("pos", .text (label a)), ("type", .text "Operation"),
      ("x", x.toJson label), ("y", y.toJson label)]
  | .entry a k v =>
    .ofFields [("key", k.toJson label), ("op", .text DictOp.create.text),
      ("pos", .text (label a)), ("type", .text "DictExpr"), ("value", v.toJson label)]
  | .select a op d k =>
    .ofFields [("dict", d.toJson label), ("key", k.toJson label),
      ("op", .text op.toDictOp.text), ("pos", .text (label a)), ("type", .text "DictExpr")]
  | .store a op d k v =>
    .ofFields [("dict", d.toJson label), ("key", k.toJson label), ("op", .text op.text),
      ("pos", .text (label a)), ("type", .text "DictExpr"), ("value", v.toJson label)]

mutual

/-- The document of a statement. -/
def Stmt.toJson (label : α → String) : Stmt α → Json
  | .var a x e =>
    .ofFields [("name", .text x.name), ("pos", .text (label a)), ("type", .text "VarStmt"),
      ("value", e.toJson label)]
  | .assign a x e =>
    .ofFields [("name", .text x.name), ("pos", .text (label a)), ("type", .text "AssignStmt"),
      ("value", e.toJson label)]
  | .print a e =>
    .ofFields [("pos", .text (label a)), ("type", .text "PrintStmt"), ("x", e.toJson label)]
  | .ifThen a c t =>
    .ofFields [("cond", c.toJson label), ("pos", .text (label a)), ("then", t.toJson label),
      ("type", .text "IfStmt")]
  | .ifElse a c t e =>
    .ofFields [("cond", c.toJson label), ("else", e.toJson label), ("pos", .text (label a)),
      ("then", t.toJson label), ("type", .text "IfStmt")]
  | .forEach a x d b =>
    .ofFields [("body", b.toJson label), ("dict", d.toJson label), ("pos", .text (label a)),
      ("type", .text "ForStmt"), ("var", .text x.name)]
  | .block b => b.toJson label

/-- The document of a block. -/
def Block.toJson (label : α → String) : Block α → Json
  | .mk a s _ =>
    .ofFields [("pos", .text (label a)), ("stmts", .list (s.toJsonItems label)),
      ("type", .text "Block")]

/-- The documents of the statements of a sequence. -/
def Seq.toJsonItems (label : α → String) : Seq α → JsonItems
  | .empty _ => .nil
  | .cons _ s rest => .cons (s.toJson label) (rest.toJsonItems label)

end

/-- The document of a program. -/
def Program.toJson (label : α → String) (p : Program α) : Json :=
  .ofFields [("pos", .text (label p.ann)), ("stmts", .list (p.body.toJsonItems label)),
    ("type", .text "Program")]

/-- The document of any node. -/
def Node.toJson (label : α → String) : Node α → Json
  | .program p => p.toJson label
  | .seq s => .list (s.toJsonItems label)
  | .stmt s => s.toJson label
  | .expr e => e.toJson label

end PairDict
