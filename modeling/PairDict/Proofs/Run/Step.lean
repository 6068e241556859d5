import PairDict.Run.Exec

/-! # Steps and what they leave

A step of a program ends well or with a fault, and leaves a machine in both cases
(`Exec.after`).  A sequence of steps is told by how the first one ends (`bind_of_ok`,
`bind_of_error`), and an expression by its value, since it leaves the machine alone
(`value_of_ok`, `value_of_error`).
-/
namespace PairDict

variable {α σ β γ : Type}

namespace Exec

/-- The machine that an outcome leaves. -/
def left : EStateM.Result (Fault α) (Machine σ) β → Machine σ
  | .ok _ m => m
  | .error _ m => m

/-- The machine that a step leaves, however it ends. -/
def after (step : Run α σ β) (m : Machine σ) : Machine σ := left (step m)

variable {step : Run α σ β} {next : β → Run α σ γ} {m m' : Machine σ} {b : β} {f : Fault α}

theorem after_of_ok (h : step m = .ok b m') : after step m = m' := by
  rw [after, h]
  rfl

theorem after_of_error (h : step m = .error f m') : after step m = m' := by
  rw [after, h]
  rfl

theorem bind_of_ok (h : step m = .ok b m') : (step >>= next) m = next b m' := by
  show EStateM.bind step next m = next b m'
  rw [EStateM.bind, h]

theorem bind_of_error (h : step m = .error f m') : (step >>= next) m = .error f m' := by
  show EStateM.bind step next m = .error f m'
  rw [EStateM.bind, h]

theorem value_of_ok {e : Expr α} {v : Value} (h : e.eval m.scope = .ok v) :
    value e m = .ok v m := by
  rw [value, h]

theorem value_of_error {e : Expr α} (h : e.eval m.scope = .error f) : value e m = .error f m := by
  rw [value, h]

theorem after_value (e : Expr α) (m : Machine σ) : after (value e) m = m := by
  cases h : e.eval m.scope with
  | ok v => exact after_of_ok (value_of_ok h)
  | error f => exact after_of_error (value_of_error h)

/-- A frame of its own is closed however the step in it ends. -/
theorem after_inFrame (step : Run α σ Unit) (m : Machine σ) :
    after (inFrame step) m =
      { after step { m with scope := m.scope.enter } with
        scope := (after step { m with scope := m.scope.enter }).scope.leave } := by
  unfold after inFrame
  cases step { m with scope := m.scope.enter } <;> rfl

end Exec

namespace Eval

/-- What is taken for a truth value is one. -/
theorem needBool_eq_ok {a : α} {v : Value} {b : Bool} (h : needBool a v = .ok b) : v = .bool b := by
  cases v <;> cases h
  rfl

/-- What is taken for a dictionary is one. -/
theorem needDict_eq_ok {a : α} {v : Value} {d : Dict} (h : needDict a v = .ok d) :
    v = .dict d := by
  cases v <;> cases h
  rfl

end Eval

end PairDict
