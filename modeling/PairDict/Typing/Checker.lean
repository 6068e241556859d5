import PairDict.Typing.Check

/-! # Checking into a table

A **checker** goes over a tree with a scope, and with a **table** if it was given one.  It
leaves no notes in the tree.  What it finds out goes into the table, under the address of the
node: which child to take at each node on the way down from the root, where children are
counted in the order of a walk.

The table has two parts.  An expression gets its entry when its type is known, so after its
operands; a name gets one when it is declared.  The name on the left of an assignment gets
none.  At the first error the checker stops, and what it has entered stays.

Without a table nothing is entered.
-/
namespace PairDict

variable {α β : Type}

/-- What a checker finds out, by the addresses of the nodes; later entries come first. -/
structure Info where
  /-- The types of expressions. -/
  types : List (List Nat × Ty)
  /-- The types of declared names. -/
  defs : List (List Nat × Ty)
  deriving DecidableEq, Repr

namespace Info

/-- The table without entries. -/
def empty : Info := ⟨[], []⟩

/-- The type of the expression at an address. -/
def typeOf? (info : Info) (path : List Nat) : Option Ty := info.types.lookup path

/-- The type of the name that is declared at an address. -/
def defOf? (info : Info) (path : List Nat) : Option Ty := info.defs.lookup path

/-- Enter the type of an expression. -/
def addType (path : List Nat) (t : Ty) (info : Info) : Info :=
  { info with types := (path, t) :: info.types }

/-- Enter the type of a declared name. -/
def addDef (path : List Nat) (t : Ty) (info : Info) : Info :=
  { info with defs := (path, t) :: info.defs }

end Info

/-- What a checker changes. -/
structure Checker where
  /-- The types of the names. -/
  scope : Scope Ty
  /-- The table, if there is one. -/
  info : Option Info

/-- A step of a checker. -/
abbrev Checking (α : Type) := EStateM (TypeError α) Checker

namespace Checker

/-- The step that ends as is known already. -/
def ofExcept (r : Except (TypeError α) β) : Checking α β := fun c =>
  match r with
  | .ok b => .ok b c
  | .error f => .error f c

/-- Look up a name. -/
def lookup (a : α) (x : String) : Checking α Ty := fun c =>
  ofExcept (Check.lookup c.scope a x) c

/-- Find a type and enter it as that of the expression at `path`. -/
def entering (path : List Nat) (step : Checking α Ty) : Checking α Ty := do
  let t ← step
  modify fun c => { c with info := c.info.map (·.addType path t) }
  return t

/-- Find a type and require it to be `want`, or else blame `a`. -/
def require (a : α) (want : Ty) (step : Checking α Ty) : Checking α Ty := do
  let t ← step
  if t.identical want then return t
  else throw ⟨a, .mismatch t (.type want)⟩

/-! ## Expressions

Each kind of operation is given the steps that check the operands and the annotations to
blame for these. -/

/-- Check a unary operation. -/
def unary (a : α) (op : Token) (ax : α) (x : Checking α Ty) : Checking α Ty :=
  match op with
  | .symbol .minus => require ax .int x
  | .symbol .bang => require ax .bool x
  | .keyword .fst => do
    let p ← ofExcept (Check.needPair ax (← x))
    return p.1
  | .keyword .snd => do
    let p ← ofExcept (Check.needPair ax (← x))
    return p.2
  | _ => throw ⟨a, .badOperator⟩

/-- Check an operation on two operands of the type of its result. -/
def uniform (t : Ty) (ax ay : α) (x y : Checking α Ty) : Checking α Ty := do
  let _ ← require ax t x
  require ay t y

/-- Check a binary operation. -/
def binary (a : α) (op : Token) (ax ay : α) (x y : Checking α Ty) : Checking α Ty :=
  match op with
  | .symbol .plus | .symbol .star => uniform .int ax ay x y
  | .symbol .andAnd => uniform .bool ax ay x y
  | .symbol .eql => do
    let s ← x
    let _ ← require ay s y
    return .bool
  | _ => throw ⟨a, .badOperator⟩

/-- Check a new dictionary. -/
def entry (ak : α) (key value : Checking α Ty) : Checking α Ty := do
  let _ ← require ak Ty.key key
  return .dict (← value)

/-- Check the key and the dictionary of an operation on a dictionary: the type of its
values. -/
def based (ad ak : α) (base key : Checking α Ty) : Checking α Ty := do
  let _ ← require ak Ty.key key
  ofExcept (Check.needDict ad (← base))

/-- Check a selection. -/
def select (a : α) (op : SelectOp) (ad ak : α) (base key : Checking α Ty) : Checking α Ty := do
  let t ← based ad ak base key
  match op with
  | .get => return t
  | .delete => return .dict t
  | .other _ => throw ⟨a, .badDictOp⟩

/-- Check a dictionary node with all its children. -/
def store (a : α) (op : DictOp) (ad ak av : α) (base key value : Checking α Ty) :
    Checking α Ty :=
  match op with
  | .create => entry ak key value
  | .get | .delete | .other _ => do
    let t ← based ad ak base key
    match op with
    | .get => return t
    | .delete => return .dict t
    | _ => throw ⟨a, .badDictOp⟩
  | .update => do
    let t ← based ad ak base key
    let _ ← require av t value
    return .dict t

/-- Check the expression at `path`. -/
def expr (path : List Nat) : Expr α → Checking α Ty
  | .name a x => entering path (lookup a x)
  | .int _ _ => entering path (pure .int)
  | .bool _ _ => entering path (pure .bool)
  | .pair _ x y => entering path do
    let s ← expr (path ++ [0]) x
    return .pair s (← expr (path ++ [1]) y)
  | .unary a op x => entering path (unary a op x.ann (expr (path ++ [0]) x))
  | .binary a op x y =>
    entering path (binary a op x.ann y.ann (expr (path ++ [0]) x) (expr (path ++ [1]) y))
  | .entry _ k v => entering path (entry k.ann (expr (path ++ [0]) k) (expr (path ++ [1]) v))
  | .select a op d k =>
    entering path (select a op d.ann k.ann (expr (path ++ [0]) d) (expr (path ++ [1]) k))
  | .store a op d k v =>
    entering path
      (store a op d.ann k.ann v.ann (expr (path ++ [0]) d) (expr (path ++ [1]) k)
        (expr (path ++ [2]) v))

/-! ## Statements -/

/-- Declare the name at `path`. -/
def declare (path : List Nat) (x : Ident α) (t : Ty) : Checking α Unit := fun c =>
  match c.scope.declare x.name t with
  | .ok scope => .ok () { scope, info := c.info.map (·.addDef path t) }
  | .error e => .error ⟨x.ann, .scope e⟩ c

/-- Check in a frame of its own, which is closed however the step ends. -/
def inFrame (step : Checking α Unit) : Checking α Unit := fun c =>
  match step { c with scope := c.scope.enter } with
  | .ok _ c' => .ok () { c' with scope := c'.scope.leave }
  | .error f c' => .error f { c' with scope := c'.scope.leave }

mutual

/-- Check the statement at `path`. -/
def stmt (path : List Nat) : Stmt α → Checking α Unit
  | .var _ x e => do declare (path ++ [0]) x (← expr (path ++ [1]) e)
  | .assign _ x e => do
    let t ← lookup x.ann x.name
    let _ ← require e.ann t (expr (path ++ [1]) e)
  | .print _ e => do
    let _ ← expr (path ++ [0]) e
  | .ifThen _ c t => do
    let _ ← require c.ann .bool (expr (path ++ [0]) c)
    block (path ++ [1]) t
  | .ifElse _ c t e => do
    let _ ← require c.ann .bool (expr (path ++ [0]) c)
    block (path ++ [1]) t
    block (path ++ [2]) e
  | .forEach _ x d b => do
    let t ← ofExcept (Check.needDict d.ann (← expr (path ++ [1]) d))
    inFrame do
      declare (path ++ [0]) x (Ty.entry t)
      block (path ++ [2]) b
  | .block b => block path b

/-- Check the block at `path`. -/
def block (path : List Nat) : Block α → Checking α Unit
  | .mk _ s _ => inFrame (seq (path ++ [0]) s)

/-- Check the sequence at `path`. -/
def seq (path : List Nat) : Seq α → Checking α Unit
  | .empty _ => pure ()
  | .cons _ s rest => do
    stmt (path ++ [0]) s
    seq (path ++ [1]) rest

end

end Checker

/-- Check a program: the first error, if there is one, and the table with what was entered,
if there is one. -/
def Program.checkInto (info : Option Info) (p : Program α) :
    Except (TypeError α) Unit × Option Info :=
  match Checker.seq [0] p.body ⟨.empty, info⟩ with
  | .ok _ c => (.ok (), c.info)
  | .error f c => (.error f, c.info)

end PairDict
