import PairDict.Run.Fault

/-! # Evaluating expressions

An expression has a value in a scope, or a fault.  Operands are evaluated from
left to right; in a dictionary operation the dictionary comes first, then the
key, then the value.  `&&` does not look at its right operand when the left one
is false.  Integers have 64 bits and wrap around.

An operator that is none is refused before its operands are looked at; a
dictionary operation that is none only after its dictionary and its key.
-/
namespace PairDict

variable {α : Type}

namespace Eval

/-- The integer that the operand at `a` has to be. -/
def needInt (a : α) : Value → Except (Fault α) Int64
  | .int n => .ok n
  | v => .error ⟨a, .mismatch v .int⟩

/-- The truth value that the operand at `a` has to be. -/
def needBool (a : α) : Value → Except (Fault α) Bool
  | .bool b => .ok b
  | v => .error ⟨a, .mismatch v .bool⟩

/-- The components of the pair that the operand at `a` has to be. -/
def needPair (a : α) : Value → Except (Fault α) (Value × Value)
  | .pair x y => .ok (x, y)
  | v => .error ⟨a, .notAPair v⟩

/-- The dictionary that the operand at `a` has to be. -/
def needDict (a : α) : Value → Except (Fault α) Dict
  | .dict d => .ok d
  | v => .error ⟨a, .notADictionary v⟩

/-- The value of a key, which stands at `a`. -/
def fetch (a : α) (d : Dict) (key : Int64) : Except (Fault α) Value :=
  match d.get? key with
  | some v => .ok v
  | none => .error ⟨a, .missingKey key⟩

/-- The dictionary without a key, which stands at `a` and has to be there. -/
def remove (a : α) (d : Dict) (key : Int64) : Except (Fault α) Value := do
  let _ ← fetch a d key
  return .dict (d.erase key)

end Eval

open Eval in
/-- The value of an expression. -/
def Expr.eval (σ : Scope Value) : Expr α → Except (Fault α) Value
  | .name a x =>
    match σ.lookup x with
    | .ok v => .ok v
    | .error e => .error ⟨a, .scope e⟩
  | .int _ n => .ok (.int n)
  | .bool _ b => .ok (.bool b)
  | .pair _ x y => do
    let u ← x.eval σ
    let v ← y.eval σ
    return .pair u v
  | .unary a op x =>
    match op with
    | .symbol .minus => do
      let n ← needInt x.ann (← x.eval σ)
      return .int (-n)
    | .symbol .bang => do
      let b ← needBool x.ann (← x.eval σ)
      return .bool (!b)
    | .keyword .fst => do
      let p ← needPair x.ann (← x.eval σ)
      return p.1
    | .keyword .snd => do
      let p ← needPair x.ann (← x.eval σ)
      return p.2
    | _ => .error ⟨a, .badUnary op⟩
  | .binary a op x y =>
    match op with
    | .symbol .plus => do
      let m ← needInt x.ann (← x.eval σ)
      let n ← needInt y.ann (← y.eval σ)
      return .int (m + n)
    | .symbol .star => do
      let m ← needInt x.ann (← x.eval σ)
      let n ← needInt y.ann (← y.eval σ)
      return .int (m * n)
    | .symbol .andAnd => do
      let b ← needBool x.ann (← x.eval σ)
      if b then
        let c ← needBool y.ann (← y.eval σ)
        return .bool c
      else return .bool false
    | .symbol .eql => do
      let u ← x.eval σ
      let v ← y.eval σ
      return .bool (u.equal v)
    | _ => .error ⟨a, .badBinary op⟩
  | .entry _ k v => do
    let key ← needInt k.ann (← k.eval σ)
    let value ← v.eval σ
    return .dict (Dict.empty.insert key value)
  | .select a op d k => do
    let dict ← needDict d.ann (← d.eval σ)
    let key ← needInt k.ann (← k.eval σ)
    match op with
    | .get => fetch k.ann dict key
    | .delete => remove k.ann dict key
    | .other n => .error ⟨a, .badDictOp (.other n)⟩
  | .store a op d k v =>
    match op with
    | .create => do
      let key ← needInt k.ann (← k.eval σ)
      let value ← v.eval σ
      return .dict (Dict.empty.insert key value)
    | .get => do
      let dict ← needDict d.ann (← d.eval σ)
      let key ← needInt k.ann (← k.eval σ)
      fetch k.ann dict key
    | .delete => do
      let dict ← needDict d.ann (← d.eval σ)
      let key ← needInt k.ann (← k.eval σ)
      remove k.ann dict key
    | .update => do
      let dict ← needDict d.ann (← d.eval σ)
      let key ← needInt k.ann (← k.eval σ)
      let value ← v.eval σ
      return .dict (dict.insert key value)
    | .other n => do
      let _ ← needDict d.ann (← d.eval σ)
      let _ ← needInt k.ann (← k.eval σ)
      .error ⟨a, .badDictOp (.other n)⟩

end PairDict
