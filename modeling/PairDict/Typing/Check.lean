import PairDict.Pos
import PairDict.Scope
import PairDict.Tree
import PairDict.Ty

/-! # Checking types

The checker works out the type of every expression from the types of its parts
and the types of the names in scope, and stops at the **first** error.  A variable
has for ever the type of the value that it is declared with.

The order in which errors are found is part of what it does.  Operands are
checked from left to right, with two exceptions: the key of a dictionary node
comes before the dictionary, and an assignment looks its name up before it checks
the value.

What was worked out is **recorded** in the tree: the checked tree is the given
tree, with a type at every expression that was reached and has one, and at every
name that was declared.  When checking fails, everything after the failure is
left as it was.

A scope is given back after every step, also after a failed one: a block closes
its frame however it ends.
-/
namespace PairDict

variable {α : Type}

/-- What an expression was required to be. -/
inductive Expected where
  /-- Of one type. -/
  | type (t : Ty)
  /-- Any pair. -/
  | anyPair
  /-- Any dictionary. -/
  | anyDict
  deriving DecidableEq, Repr

/-- How a requirement is written. -/
def Expected.text : Expected → String
  | .type t => t.text
  | .anyPair => "pair"
  | .anyDict => "dictionary"

/-- What is wrong with a program. -/
inductive TypeFault where
  /-- An expression has a type that does not fit where it stands. -/
  | mismatch (found : Ty) (expected : Expected)
  /-- A name is used in a way its scope forbids. -/
  | scope (e : ScopeError)
  /-- An operator that is none. -/
  | badOperator
  /-- A dictionary operation that is none. -/
  | badDictOp
  deriving DecidableEq, Repr

namespace TypeFault

/-- The fault as it is reported, without its place. -/
def complaint : TypeFault → String
  | .mismatch found expected =>
    "type mismatch: found " ++ found.text ++ ", expected " ++ expected.text
  | .scope e => e.message
  | .badOperator => "invalid AST: unexpected *syntax.Operation"
  | .badDictOp => "invalid AST: unexpected *syntax.DictExpr"

end TypeFault

/-- A fault and the annotation of the node to blame. -/
structure TypeError (α : Type) where
  /-- Where it is. -/
  ann : α
  /-- What it is. -/
  fault : TypeFault
  deriving DecidableEq, Repr

/-- The error as it is reported. -/
def TypeError.message (e : TypeError Pos) : String := e.ann.text ++ ": " ++ e.fault.complaint

/-- An annotation together with what the checker recorded. -/
structure Note (α : Type) where
  /-- The annotation that was there. -/
  ann : α
  /-- The type that was recorded, if one was. -/
  type : Option Ty
  deriving DecidableEq, Repr

namespace Note

/-- An annotation of which nothing is recorded. -/
def bare (a : α) : Note α := ⟨a, none⟩

/-- Drop what was recorded. -/
def clear (n : Note α) : Note α := bare n.ann

end Note

namespace Check

/-! ## Expressions -/

/-- What checking an expression gives: its type or the first error, and the tree
with what was recorded on the way. -/
structure Typed (α : Type) where
  /-- The type. -/
  type : Except (TypeError α) Ty
  /-- The recorded types. -/
  tree : Expr (Note α)

namespace Typed

/-- Require the expression to be of the type `want`. -/
def expect (r : Typed α) (want : Ty) : Typed α :=
  { r with
    type := do
      let t ← r.type
      if t.identical want then return t
      else throw ⟨r.tree.ann.ann, .mismatch t (.type want)⟩ }

/-- What is recorded of an expression that comes after `r`: nothing if `r`
failed, since then it is not reached. -/
def after (e r : Typed α) : Typed α :=
  match r.type with
  | .ok _ => e
  | .error f => ⟨.error f, e.tree.map Note.clear⟩

end Typed

/-- A node of the given type, which is recorded there. -/
def node (a : α) (type : Except (TypeError α) Ty) (build : Note α → Expr (Note α)) : Typed α :=
  ⟨type, build ⟨a, type.toOption⟩⟩

/-- The type that a scope gives to a name. -/
def lookup (Γ : Scope Ty) (a : α) (x : String) : Except (TypeError α) Ty :=
  match Γ.lookup x with
  | .ok t => .ok t
  | .error e => .error ⟨a, .scope e⟩

/-- The components of a pair type, or a complaint about the expression at `a`. -/
def needPair (a : α) : Ty → Except (TypeError α) (Ty × Ty)
  | .pair x y => .ok (x, y)
  | t => .error ⟨a, .mismatch t .anyPair⟩

/-- The values of a dictionary type, or a complaint about the expression at `a`. -/
def needDict (a : α) : Ty → Except (TypeError α) Ty
  | .dict t => .ok t
  | t => .error ⟨a, .mismatch t .anyDict⟩

/-- Check a unary operation. -/
def unary (a : α) (op : Token) (x : Typed α) : Typed α :=
  match op with
  | .symbol .minus =>
    let x := x.expect .int
    node a x.type (.unary · op x.tree)
  | .symbol .bang =>
    let x := x.expect .bool
    node a x.type (.unary · op x.tree)
  | .keyword .fst =>
    node a (do let p ← needPair x.tree.ann.ann (← x.type); return p.1) (.unary · op x.tree)
  | .keyword .snd =>
    node a (do let p ← needPair x.tree.ann.ann (← x.type); return p.2) (.unary · op x.tree)
  | _ => node a (throw ⟨a, .badOperator⟩) (.unary · op (x.tree.map Note.clear))

/-- Check an operation on two operands of the type of its result. -/
def uniform (a : α) (op : Token) (t : Ty) (x y : Typed α) : Typed α :=
  let x := x.expect t
  let y := (y.expect t).after x
  node a y.type (.binary · op x.tree y.tree)

/-- Check a binary operation. -/
def binary (a : α) (op : Token) (x y : Typed α) : Typed α :=
  match op with
  | .symbol .plus | .symbol .star => uniform a op .int x y
  | .symbol .andAnd => uniform a op .bool x y
  | .symbol .eql =>
    let y := y.after x
    node a (do
      let s ← x.type
      let _ ← (y.expect s).type
      return .bool) (.binary · op x.tree y.tree)
  | _ =>
    node a (throw ⟨a, .badOperator⟩)
      (.binary · op (x.tree.map Note.clear) (y.tree.map Note.clear))

/-- Check a new dictionary. -/
def entry (a : α) (key value : Typed α) (build : Note α → Expr (Note α) → Expr (Note α) →
    Expr (Note α)) : Typed α :=
  let key := key.expect Ty.key
  let value := value.after key
  node a (do let t ← value.type; return .dict t) (build · key.tree value.tree)

/-- Check the key and the dictionary of an operation on a dictionary: the type of
its values, and what was recorded of the two. -/
def based (base key : Typed α) : Except (TypeError α) Ty × Typed α × Typed α :=
  let key := key.expect Ty.key
  let base := base.after key
  (do needDict base.tree.ann.ann (← base.type), base, key)

/-- Check a selection. -/
def select (a : α) (op : SelectOp) (base key : Typed α) : Typed α :=
  let (elem, base, key) := based base key
  let type := match op with
    | .get => elem
    | .delete => do let t ← elem; return .dict t
    | .other _ => do let _ ← elem; throw ⟨a, .badDictOp⟩
  node a type (.select · op base.tree key.tree)

/-- Check a dictionary node with all its children.  The children that the
operation has no use for are not looked at. -/
def store (a : α) (op : DictOp) (base key value : Typed α) : Typed α :=
  match op with
  | .create => entry a key value fun n k v => .store n op (base.tree.map Note.clear) k v
  | .get | .delete | .other _ =>
    let (elem, base, key) := based base key
    let type := match op with
      | .get => elem
      | .delete => do let t ← elem; return .dict t
      | _ => do let _ ← elem; throw ⟨a, .badDictOp⟩
    node a type (.store · op base.tree key.tree (value.tree.map Note.clear))
  | .update =>
    let (elem, base, key) := based base key
    let value := value.after ⟨elem, base.tree⟩
    node a (do
      let t ← elem
      let _ ← (value.expect t).type
      return .dict t) (.store · op base.tree key.tree value.tree)

/-- Check an expression. -/
def expr (Γ : Scope Ty) : Expr α → Typed α
  | .name a x => node a (lookup Γ a x) (.name · x)
  | .int a n => node a (.ok .int) (.int · n)
  | .bool a b => node a (.ok .bool) (.bool · b)
  | .pair a x y =>
    let x := expr Γ x
    let y := (expr Γ y).after x
    node a (do return .pair (← x.type) (← y.type)) (.pair · x.tree y.tree)
  | .unary a op x => unary a op (expr Γ x)
  | .binary a op x y => binary a op (expr Γ x) (expr Γ y)
  | .entry a k v => entry a (expr Γ k) (expr Γ v) .entry
  | .select a op d k => select a op (expr Γ d) (expr Γ k)
  | .store a op d k v => store a op (expr Γ d) (expr Γ k) (expr Γ v)

/-! ## Statements -/

/-- What checking a statement, a block or a sequence gives: the first error, if
there is one, the scope that is left behind, and the tree with what was recorded
on the way. -/
structure Checked (α τ : Type) where
  /-- The outcome. -/
  result : Except (TypeError α) Unit
  /-- The scope afterwards. -/
  scope : Scope Ty
  /-- The recorded types. -/
  tree : τ

/-- Declare a name of type `t`, which is recorded at the name. -/
def declare (Γ : Scope Ty) (x : Ident α) (t : Ty) : Checked α (Ident (Note α)) :=
  match Γ.declare x.name t with
  | .ok Γ' => ⟨.ok (), Γ', ⟨⟨x.ann, some t⟩, x.name⟩⟩
  | .error e => ⟨.error ⟨x.ann, .scope e⟩, Γ, x.map Note.bare⟩

mutual

/-- Check a statement. -/
def stmt (Γ : Scope Ty) : Stmt α → Checked α (Stmt (Note α))
  | .var a x e =>
    let v := expr Γ e
    match v.type with
    | .error f => ⟨.error f, Γ, .var (.bare a) (x.map .bare) v.tree⟩
    | .ok t =>
      let d := declare Γ x t
      ⟨d.result, d.scope, .var (.bare a) d.tree v.tree⟩
  | .assign a x e =>
    match lookup Γ x.ann x.name with
    | .error f => ⟨.error f, Γ, .assign (.bare a) (x.map .bare) (e.map .bare)⟩
    | .ok t =>
      let v := (expr Γ e).expect t
      ⟨do let _ ← v.type, Γ, .assign (.bare a) (x.map .bare) v.tree⟩
  | .print a e =>
    let v := expr Γ e
    ⟨do let _ ← v.type, Γ, .print (.bare a) v.tree⟩
  | .ifThen a c t =>
    let cond := (expr Γ c).expect .bool
    match cond.type with
    | .error f => ⟨.error f, Γ, .ifThen (.bare a) cond.tree (t.map .bare)⟩
    | .ok _ =>
      let yes := block Γ t
      ⟨yes.result, yes.scope, .ifThen (.bare a) cond.tree yes.tree⟩
  | .ifElse a c t e =>
    let cond := (expr Γ c).expect .bool
    match cond.type with
    | .error f => ⟨.error f, Γ, .ifElse (.bare a) cond.tree (t.map .bare) (e.map .bare)⟩
    | .ok _ =>
      let yes := block Γ t
      match yes.result with
      | .error f => ⟨.error f, yes.scope, .ifElse (.bare a) cond.tree yes.tree (e.map .bare)⟩
      | .ok _ =>
        let no := block yes.scope e
        ⟨no.result, no.scope, .ifElse (.bare a) cond.tree yes.tree no.tree⟩
  | .forEach a x d b =>
    let v := expr Γ d
    match do needDict v.tree.ann.ann (← v.type) with
    | .error f => ⟨.error f, Γ, .forEach (.bare a) (x.map .bare) v.tree (b.map .bare)⟩
    | .ok t =>
      let bound := declare Γ.enter x (Ty.entry t)
      match bound.result with
      | .error f =>
        ⟨.error f, bound.scope.leave, .forEach (.bare a) bound.tree v.tree (b.map .bare)⟩
      | .ok _ =>
        let body := block bound.scope b
        ⟨body.result, body.scope.leave, .forEach (.bare a) bound.tree v.tree body.tree⟩
  | .block b =>
    let r := block Γ b
    ⟨r.result, r.scope, .block r.tree⟩

/-- Check a block in a frame of its own. -/
def block (Γ : Scope Ty) : Block α → Checked α (Block (Note α))
  | .mk a s close =>
    let r := seq Γ.enter s
    ⟨r.result, r.scope.leave, .mk (.bare a) r.tree (.bare close)⟩

/-- Check a sequence. -/
def seq (Γ : Scope Ty) : Seq α → Checked α (Seq (Note α))
  | .empty a => ⟨.ok (), Γ, .empty (.bare a)⟩
  | .cons a s rest =>
    let first := stmt Γ s
    match first.result with
    | .error f => ⟨.error f, first.scope, .cons (.bare a) first.tree (rest.map .bare)⟩
    | .ok _ =>
      let more := seq first.scope rest
      ⟨more.result, more.scope, .cons (.bare a) first.tree more.tree⟩

end

end Check

namespace Program

/-- Check a program: the first error, if there is one, and the program with what
was recorded. -/
def check (p : Program α) : Except (TypeError α) Unit × Program (Note α) :=
  let r := Check.seq .empty p.body
  (r.result, ⟨.bare p.ann, r.tree⟩)

/-- The program with nothing recorded. -/
def unchecked (p : Program α) : Program (Note α) := p.map .bare

end Program

namespace Note

/-- How a recorded annotation is shown: the position, and the type after it. -/
def label (n : Note Pos) : String :=
  match n.type with
  | none => n.ann.text
  | some t => n.ann.text ++ " : " ++ t.text

end Note

end PairDict
