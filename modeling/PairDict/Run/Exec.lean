import PairDict.Run.Eval

/-! # Running statements

A running program has a **machine**: the scope of its variables, and the state of
the **sink** that takes its output.  A sink is offered one line at a time, each
with its newline, and takes it or refuses it with a message; a refused line stops
the program.

A step changes the machine and ends well or with a fault, and the machine that a
fault leaves behind is part of the outcome: what was printed stays printed, and a
block closes its frame however it ends.

A loop runs its body once for each entry of the dictionary as it was when the
loop began.  The loop variable has a frame of its own around the body's frame; it
is declared for the first entry and updated for the others.
-/
namespace PairDict

variable {α σ : Type}

/-- Where output goes; `σ` is what the sink remembers. -/
structure Sink (σ : Type) where
  /-- Offer a line: what the sink remembers afterwards, and why it refused the
  line, if it did. -/
  offer : σ → String → σ × Option String

namespace Sink

/-- The sink that takes everything and remembers the text. -/
def all : Sink String := ⟨fun out line => (out ++ line, none)⟩

/-- The sink that takes as many lines as are left and refuses every later one. -/
def limited (refusal : String) : Sink (Nat × String) where
  offer := fun (left, out) line =>
    match left with
    | 0 => ((0, out), some refusal)
    | n + 1 => ((n, out ++ line), none)

end Sink

/-- What a running program changes. -/
structure Machine (σ : Type) where
  /-- The variables. -/
  scope : Scope Value
  /-- What the sink remembers. -/
  out : σ

/-- A step of a program. -/
abbrev Run (α σ : Type) := EStateM (Fault α) (Machine σ)

namespace Exec

/-- The value of an expression. -/
def value (e : Expr α) : Run α σ Value := fun m =>
  match e.eval m.scope with
  | .ok v => .ok v m
  | .error f => .error f m

/-- Change the scope, where a failure is blamed on `a`. -/
def rescope (a : α) (f : Scope Value → Except ScopeError (Scope Value)) : Run α σ Unit := fun m =>
  match f m.scope with
  | .ok s => .ok () { m with scope := s }
  | .error e => .error ⟨a, .scope e⟩ m

/-- Bind a new name. -/
def declare (x : Ident α) (v : Value) : Run α σ Unit := rescope x.ann (·.declare x.name v)

/-- Rebind a name. -/
def assign (x : Ident α) (v : Value) : Run α σ Unit := rescope x.ann (·.update x.name v)

/-- Offer a line to the sink, where a refusal is blamed on `a`. -/
def emit (sink : Sink σ) (a : α) (line : String) : Run α σ Unit := fun m =>
  match sink.offer m.out line with
  | (out, none) => .ok () { m with out }
  | (out, some refusal) => .error ⟨a, .write refusal⟩ { m with out }

/-- Run a step in a frame of its own, which is closed however the step ends. -/
def inFrame (step : Run α σ Unit) : Run α σ Unit := fun m =>
  match step { m with scope := m.scope.enter } with
  | .ok _ m' => .ok () { m' with scope := m'.scope.leave }
  | .error f m' => .error f { m' with scope := m'.scope.leave }

/-- Run a loop body once for each of the entries that are left.  `bound` says
whether the loop variable is declared yet. -/
def loop (x : Ident α) (body : Run α σ Unit) (bound : Bool) : Dict → Run α σ Unit
  | .nil => pure ()
  | .cons k v rest => do
    if bound then assign x (.pair (.int k) v) else declare x (.pair (.int k) v)
    body
    loop x body true rest

mutual

/-- Run a statement. -/
def stmt (sink : Sink σ) : Stmt α → Run α σ Unit
  | .var _ x e => do declare x (← value e)
  | .assign _ x e => do assign x (← value e)
  | .print a e => do emit sink a ((← value e).text ++ "\n")
  | .ifThen _ c t => do
    let v ← value c
    match Eval.needBool c.ann v with
    | .error f => throw f
    | .ok true => block sink t
    | .ok false => pure ()
  | .ifElse _ c t e => do
    let v ← value c
    match Eval.needBool c.ann v with
    | .error f => throw f
    | .ok true => block sink t
    | .ok false => block sink e
  | .forEach _ x d b => do
    let v ← value d
    match Eval.needDict d.ann v with
    | .error f => throw f
    | .ok dict => inFrame (loop x (block sink b) false dict)
  | .block b => block sink b

/-- Run a block in a frame of its own. -/
def block (sink : Sink σ) : Block α → Run α σ Unit
  | .mk _ s _ => inFrame (seq sink s)

/-- Run a sequence. -/
def seq (sink : Sink σ) : Seq α → Run α σ Unit
  | .empty _ => pure ()
  | .cons _ s rest => do
    stmt sink s
    seq sink rest

end

end Exec

/-- Run a program from an empty scope: what the sink remembers afterwards, and
the fault that stopped it, if one did. -/
def Program.run (sink : Sink σ) (out : σ) (p : Program α) : Except (Fault α) Unit × σ :=
  match Exec.seq sink p.body ⟨.empty, out⟩ with
  | .ok _ m => (.ok (), m.out)
  | .error f m => (.error f, m.out)

end PairDict
