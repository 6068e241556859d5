import PairDict.Token

/-! # Program trees

A program is a sequence of statements over expressions of integers, truth
values, pairs and dictionaries with integer keys.  Every node of a tree carries
an **annotation** of a type `α`.  A parsed tree is annotated with positions, a
checked tree with positions and types, and a tree of which only the shape
matters with nothing (`Unit`).  Nothing that is computed from a tree depends on
its annotations, except that errors repeat the annotation of the node to blame;
`map` replaces annotations and is how that is said.

The operators of a tree are arbitrary tokens.  A parsed tree uses four unary and
four binary ones; on a tree put together by hand any other operator is an error
of the tree, which checking and evaluation report.  In the same way a dictionary
node may ask for an operation that does not exist.
-/
namespace PairDict

/-- A name where it is bound or assigned. -/
structure Ident (α : Type) where
  /-- The annotation of the name. -/
  ann : α
  /-- Its spelling. -/
  name : String
  deriving DecidableEq, Repr

/-- What a dictionary node asks for. -/
inductive DictOp where
  /-- A new dictionary of one entry. -/
  | create
  /-- The value of a key. -/
  | get
  /-- A copy with one entry set. -/
  | update
  /-- A copy without a key. -/
  | delete
  /-- No operation at all. -/
  | other (code : Nat)
  deriving DecidableEq, Repr

namespace DictOp

/-- The operation of a number. -/
def ofCode : Nat → DictOp
  | 0 => .create
  | 1 => .get
  | 2 => .update
  | 3 => .delete
  | n => .other n

/-- How an operation is written. -/
def text : DictOp → String
  | .create => "create"
  | .get => "get"
  | .update => "update"
  | .delete => "delete"
  | .other _ => "DictOp(?)"

end DictOp

/-- The dictionary operations that need no value. -/
inductive SelectOp where
  /-- The value of a key. -/
  | get
  /-- A copy without a key. -/
  | delete
  /-- No operation at all. -/
  | other (code : Nat)
  deriving DecidableEq, Repr

namespace SelectOp

/-- The operation among all dictionary operations. -/
def toDictOp : SelectOp → DictOp
  | .get => .get
  | .delete => .delete
  | .other n => .other n

end SelectOp

/-- An expression.  A dictionary node has the children that its operation needs:
a new dictionary has a key and a value, a selection has a base and a key, and a
node with all three children may carry any operation, which disregards the
children that it does not need. -/
inductive Expr (α : Type) where
  /-- A variable. -/
  | name (a : α) (s : String)
  /-- An integer. -/
  | int (a : α) (n : Int64)
  /-- A truth value. -/
  | bool (a : α) (b : Bool)
  /-- A pair `x, y`. -/
  | pair (a : α) (x y : Expr α)
  /-- An operator before its operand. -/
  | unary (a : α) (op : Token) (x : Expr α)
  /-- An operator between its operands. -/
  | binary (a : α) (op : Token) (x y : Expr α)
  /-- A dictionary of one entry, `[key:value]`. -/
  | entry (a : α) (key value : Expr α)
  /-- A dictionary and a key: `base[key]` gets, `base[key:]` deletes. -/
  | select (a : α) (op : SelectOp) (base key : Expr α)
  /-- A dictionary, a key and a value: `base[key:value]` updates. -/
  | store (a : α) (op : DictOp) (base key value : Expr α)
  deriving DecidableEq, Repr

mutual

/-- A statement. -/
inductive Stmt (α : Type) where
  /-- `var x = value`. -/
  | var (a : α) (x : Ident α) (value : Expr α)
  /-- `x = value`. -/
  | assign (a : α) (x : Ident α) (value : Expr α)
  /-- `print x`. -/
  | print (a : α) (x : Expr α)
  /-- `if (cond) yes`. -/
  | ifThen (a : α) (cond : Expr α) (yes : Block α)
  /-- `if (cond) yes else no`. -/
  | ifElse (a : α) (cond : Expr α) (yes no : Block α)
  /-- `for (var x of dict) body`. -/
  | forEach (a : α) (x : Ident α) (dict : Expr α) (body : Block α)
  /-- A block that stands as a statement; the grammar has none. -/
  | block (b : Block α)

/-- Statements with a scope of their own. -/
inductive Block (α : Type) where
  /-- The statements in braces; `close` annotates the closing one. -/
  | mk (a : α) (body : Seq α) (close : α)

/-- A sequence of statements. -/
inductive Seq (α : Type) where
  /-- The end of a sequence. -/
  | empty (a : α)
  /-- A statement and those after it. -/
  | cons (a : α) (first : Stmt α) (rest : Seq α)

end

/-- A whole program. -/
structure Program (α : Type) where
  /-- The annotation of the program. -/
  ann : α
  /-- Its statements. -/
  body : Seq α

/-! ## Annotations -/

variable {α β : Type}

namespace Ident

/-- Replace the annotation. -/
def map (f : α → β) (x : Ident α) : Ident β := ⟨f x.ann, x.name⟩

/-- The name as an expression. -/
def toExpr (x : Ident α) : Expr α := .name x.ann x.name

end Ident

namespace Expr

/-- The annotation of an expression. -/
def ann : Expr α → α
  | .name a _ | .int a _ | .bool a _ | .pair a _ _ | .unary a _ _ | .binary a _ _ _
  | .entry a _ _ | .select a _ _ _ | .store a _ _ _ _ => a

/-- Replace every annotation. -/
def map (f : α → β) : Expr α → Expr β
  | .name a s => .name (f a) s
  | .int a n => .int (f a) n
  | .bool a b => .bool (f a) b
  | .pair a x y => .pair (f a) (x.map f) (y.map f)
  | .unary a op x => .unary (f a) op (x.map f)
  | .binary a op x y => .binary (f a) op (x.map f) (y.map f)
  | .entry a k v => .entry (f a) (k.map f) (v.map f)
  | .select a op d k => .select (f a) op (d.map f) (k.map f)
  | .store a op d k v => .store (f a) op (d.map f) (k.map f) (v.map f)

end Expr

mutual

/-- Replace every annotation of a statement. -/
def Stmt.map (f : α → β) : Stmt α → Stmt β
  | .var a x e => .var (f a) (x.map f) (e.map f)
  | .assign a x e => .assign (f a) (x.map f) (e.map f)
  | .print a e => .print (f a) (e.map f)
  | .ifThen a c t => .ifThen (f a) (c.map f) (t.map f)
  | .ifElse a c t e => .ifElse (f a) (c.map f) (t.map f) (e.map f)
  | .forEach a x d b => .forEach (f a) (x.map f) (d.map f) (b.map f)
  | .block b => .block (b.map f)

/-- Replace every annotation of a block. -/
def Block.map (f : α → β) : Block α → Block β
  | .mk a s close => .mk (f a) (s.map f) (f close)

/-- Replace every annotation of a sequence. -/
def Seq.map (f : α → β) : Seq α → Seq β
  | .empty a => .empty (f a)
  | .cons a s rest => .cons (f a) (s.map f) (rest.map f)

end

namespace Block

/-- The annotation of a block. -/
def ann : Block α → α
  | .mk a _ _ => a

/-- The annotation of the closing brace. -/
def close : Block α → α
  | .mk _ _ c => c

/-- The statements of a block. -/
def body : Block α → Seq α
  | .mk _ s _ => s

end Block

namespace Stmt

/-- The annotation of a statement. -/
def ann : Stmt α → α
  | .var a _ _ | .assign a _ _ | .print a _ | .ifThen a _ _ | .ifElse a _ _ _
  | .forEach a _ _ _ => a
  | .block b => b.ann

end Stmt

namespace Seq

/-- The annotation of a sequence. -/
def ann : Seq α → α
  | .empty a | .cons a _ _ => a

/-- The statements in order. -/
def stmts : Seq α → List (Stmt α)
  | .empty _ => []
  | .cons _ s rest => s :: rest.stmts

end Seq

namespace Program

/-- Replace every annotation. -/
def map (f : α → β) (p : Program α) : Program β := ⟨f p.ann, p.body.map f⟩

/-- The shape of a program, without its annotations. -/
def shape (p : Program α) : Program Unit := p.map fun _ => ()

end Program

end PairDict
