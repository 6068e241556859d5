/-! # Nested scopes

A scope binds names to values of some type: to types while a program is checked,
to run-time values while it runs.  It is a stack of **frames**, the innermost
first, and there is always at least one.  A name means what the innermost frame
that binds it says, so an inner binding shadows an outer one without touching
it.

* `declare` binds a name in the innermost frame, where it must be new;
* `update` rebinds a name where it is bound;
* `enter` and `leave?` open and close a frame.  The outermost frame cannot be
  closed.

An operation that fails changes nothing.
-/
namespace PairDict

/-- The bindings of one frame. -/
abbrev Frame (β : Type) := List (String × β)

namespace Frame

variable {β : Type}

/-- The names that a frame binds. -/
def names (f : Frame β) : List String := f.map Prod.fst

/-- What a frame binds a name to. -/
def get? (f : Frame β) (x : String) : Option β := f.lookup x

/-- The frame with a name that it binds bound to `v`. -/
def set (f : Frame β) (x : String) (v : β) : Frame β :=
  f.map fun b => if b.1 = x then (x, v) else b

end Frame

/-- A name that cannot be used as it is. -/
inductive ScopeError where
  /-- No frame binds the name. -/
  | undeclared (name : String)
  /-- The innermost frame binds the name already. -/
  | alreadyDeclared (name : String)
  deriving DecidableEq, Repr

namespace ScopeError

/-- The error as it is reported. -/
def message : ScopeError → String
  | .undeclared x => "undeclared name: " ++ x
  | .alreadyDeclared x => x ++ " already declared in this scope"

/-- The name that is to blame. -/
def name : ScopeError → String
  | .undeclared x | .alreadyDeclared x => x

end ScopeError

/-- A stack of frames with at least one. -/
structure Scope (β : Type) where
  /-- The innermost frame. -/
  inner : Frame β
  /-- The frames around it, from the inside out. -/
  outer : List (Frame β)
  deriving DecidableEq, Repr

namespace Scope

variable {β : Type}

/-- One empty frame. -/
def empty : Scope β := ⟨[], []⟩

/-- Every frame, from the inside out. -/
def frames (s : Scope β) : List (Frame β) := s.inner :: s.outer

/-- The number of frames. -/
def depth (s : Scope β) : Nat := s.outer.length + 1

/-- Open an empty frame. -/
def enter (s : Scope β) : Scope β := ⟨[], s.frames⟩

/-- Close the innermost frame, unless it is the only one. -/
def leave? (s : Scope β) : Option (Scope β) :=
  match s.outer with
  | [] => none
  | f :: fs => some ⟨f, fs⟩

/-- Close the innermost frame; the outermost one stays. -/
def leave (s : Scope β) : Scope β := s.leave?.getD s

/-- What a stack of frames binds a name to. -/
def find? (x : String) (fs : List (Frame β)) : Option β := fs.findSome? (·.get? x)

/-- What a name means. -/
def lookup (s : Scope β) (x : String) : Except ScopeError β :=
  match find? x s.frames with
  | some v => .ok v
  | none => .error (.undeclared x)

/-- Bind a new name in the innermost frame. -/
def declare (s : Scope β) (x : String) (v : β) : Except ScopeError (Scope β) :=
  match s.inner.get? x with
  | some _ => .error (.alreadyDeclared x)
  | none => .ok { s with inner := (x, v) :: s.inner }

/-- Rebind a name in the first frame of a stack that binds it. -/
def updateFrames (x : String) (v : β) : List (Frame β) → Option (List (Frame β))
  | [] => none
  | f :: fs =>
    match f.get? x with
    | some _ => some (f.set x v :: fs)
    | none => (updateFrames x v fs).map (f :: ·)

/-- Rebind a name where it is bound. -/
def update (s : Scope β) (x : String) (v : β) : Except ScopeError (Scope β) :=
  match s.inner.get? x with
  | some _ => .ok { s with inner := s.inner.set x v }
  | none =>
    match updateFrames x v s.outer with
    | some fs => .ok { s with outer := fs }
    | none => .error (.undeclared x)

/-! ## Calls -/

/-- What can be asked of a scope. -/
inductive Call (β : Type) where
  | enter
  | leave
  | declare (name : String) (value : β)
  | update (name : String) (value : β)
  | lookup (name : String)
  deriving DecidableEq, Repr

/-- What a scope answers. -/
inductive Answer (β : Type) where
  /-- It is done. -/
  | done
  /-- A name has this value. -/
  | value (v : β)
  /-- A name cannot be used as it is. -/
  | failed (e : ScopeError)
  /-- The only frame cannot be closed. -/
  | refused
  deriving DecidableEq, Repr

/-- The scope that a change leads to; one that fails leads nowhere. -/
def change (s : Scope β) : Except ScopeError (Scope β) → Scope β × Answer β
  | .ok t => (t, .done)
  | .error e => (s, .failed e)

/-- One call: the scope after it, and its answer. -/
def call (s : Scope β) : Call β → Scope β × Answer β
  | .enter => (s.enter, .done)
  | .leave =>
    match s.leave? with
    | some t => (t, .done)
    | none => (s, .refused)
  | .declare x v => s.change (s.declare x v)
  | .update x v => s.change (s.update x v)
  | .lookup x =>
    match s.lookup x with
    | .ok v => (s, .value v)
    | .error e => (s, .failed e)

/-- The scope after some calls. -/
def after (s : Scope β) (calls : List (Call β)) : Scope β :=
  calls.foldl (fun s c => (s.call c).1) s

end Scope

end PairDict
