/-! # Types

A type is `int`, `bool`, a pair of types, or a dictionary from integers to a
type.  Types are compared by structure, so being identical is being equal.
-/
namespace PairDict

/-- A static type. -/
inductive Ty where
  /-- The integers. -/
  | int
  /-- The truth values. -/
  | bool
  /-- Pairs. -/
  | pair (first second : Ty)
  /-- Dictionaries from integers. -/
  | dict (elem : Ty)
  deriving DecidableEq, Repr, Inhabited

namespace Ty

/-- How a type is written. -/
def text : Ty → String
  | .int => "int"
  | .bool => "bool"
  | .pair x y => "(" ++ x.text ++ "," ++ y.text ++ ")"
  | .dict t => "[int:" ++ t.text ++ "]"

/-- Whether two types are the same: built alike, from parts that are the same. -/
def identical : Ty → Ty → Bool
  | .int, .int => true
  | .bool, .bool => true
  | .pair x y, .pair x' y' => x.identical x' && y.identical y'
  | .dict t, .dict t' => t.identical t'
  | _, _ => false

/-- Being identical is being equal. -/
@[simp] theorem identical_iff {x y : Ty} : x.identical y = true ↔ x = y := by
  induction x generalizing y with
  | int => cases y <;> simp [identical]
  | bool => cases y <;> simp [identical]
  | pair x₁ x₂ ih₁ ih₂ => cases y <;> simp [identical, ih₁, ih₂]
  | dict t ih => cases y <;> simp [identical, ih]

/-- Whether the type is `int`. -/
def isInt : Ty → Bool
  | .int => true
  | _ => false

/-- Whether the type is `bool`. -/
def isBool : Ty → Bool
  | .bool => true
  | _ => false

/-- The number and the name of a type without components. -/
def basic? : Ty → Option (Nat × String)
  | .bool => some (1, Ty.bool.text)
  | .int => some (2, Ty.int.text)
  | _ => none

/-- The components of a pair type. -/
def pair? : Ty → Option (Ty × Ty)
  | .pair x y => some (x, y)
  | _ => none

/-- The type of the values of a dictionary. -/
def dict? : Ty → Option Ty
  | .dict t => some t
  | _ => none

/-- The type of the keys of every dictionary. -/
def key : Ty := .int

/-- The type of the entries of a dictionary whose values have type `t`. -/
def entry (t : Ty) : Ty := .pair key t

end Ty

end PairDict
