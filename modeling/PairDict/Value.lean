/-! # Run-time values

A value is an integer of 64 bits, a truth value, a pair of values, or a
dictionary.  A **dictionary** is a finite map from integers to values, held as its
entries in ascending order of their keys, negative keys first.  The order is kept
by every operation, so two dictionaries with the same entries are the same, and
printing them shows the entries in order.

Values never change: an operation on a dictionary is one on a **copy** of it, which is
built anew, entry by entry.
-/
namespace PairDict

mutual

/-- A value. -/
inductive Value where
  /-- An integer. -/
  | int (n : Int64)
  /-- A truth value. -/
  | bool (b : Bool)
  /-- A pair. -/
  | pair (x y : Value)
  /-- A dictionary. -/
  | dict (d : Dict)

/-- The entries of a dictionary, by ascending keys. -/
inductive Dict where
  /-- No entry. -/
  | nil
  /-- The entry of the least key, and the others. -/
  | cons (key : Int64) (value : Value) (rest : Dict)

end

/-- The kinds of values. -/
inductive Kind where
  | int | bool | pair | dictionary
  deriving DecidableEq, Repr

/-- How a kind is written. -/
def Kind.text : Kind → String
  | .int => "int"
  | .bool => "bool"
  | .pair => "pair"
  | .dictionary => "dictionary"

namespace Dict

/-- The dictionary without entries. -/
def empty : Dict := .nil

/-- The entries in order. -/
def toList : Dict → List (Int64 × Value)
  | .nil => []
  | .cons k v rest => (k, v) :: rest.toList

/-- The number of entries. -/
def size : Dict → Nat
  | .nil => 0
  | .cons _ _ rest => rest.size + 1

/-- The value of a key. -/
def get? (key : Int64) : Dict → Option Value
  | .nil => none
  | .cons k v rest => if k = key then some v else rest.get? key

/-- Set the value of a key; a new key goes where the order has it. -/
def put (key : Int64) (value : Value) : Dict → Dict
  | .nil => .cons key value .nil
  | .cons k v rest =>
    if key < k then .cons key value (.cons k v rest)
    else if key = k then .cons key value rest
    else .cons k v (rest.put key value)

/-- Drop the entry of a key, if there is one. -/
def remove (key : Int64) : Dict → Dict
  | .nil => .nil
  | .cons k v rest => if k = key then rest else .cons k v (rest.remove key)

/-- A dictionary of the same entries, built by setting one after another. -/
def copy (d : Dict) : Dict := d.toList.foldl (fun c e => c.put e.1 e.2) empty

/-- The dictionary with `key` bound to `value`. -/
def insert (key : Int64) (value : Value) (d : Dict) : Dict := d.copy.put key value

/-- The dictionary without `key`. -/
def erase (key : Int64) (d : Dict) : Dict := d.copy.remove key

/-- The entries that a visitor is shown, who goes on as long as `more` holds of
the entry just seen. -/
def visited (more : Int64 → Value → Bool) : Dict → List (Int64 × Value)
  | .nil => []
  | .cons k v rest => (k, v) :: if more k v then rest.visited more else []

end Dict

mutual

/-- How a value is printed. -/
def Value.text : Value → String
  | .int n => toString n.toInt
  | .bool b => if b then "true" else "false"
  | .pair x y => "(" ++ x.text ++ "," ++ y.text ++ ")"
  | .dict .nil => "[]"
  | .dict (.cons k v rest) => "[" ++ toString k.toInt ++ ":" ++ v.text ++ rest.textAfter ++ "]"

/-- The entries after the first, each after a comma. -/
def Dict.textAfter : Dict → String
  | .nil => ""
  | .cons k v rest => "," ++ toString k.toInt ++ ":" ++ v.text ++ rest.textAfter

end

mutual

/-- Whether two values are equal.  Values of different kinds never are, and
dictionaries are if they have as many entries and the entries of the one are found in
the other. -/
def Value.equal : Value → Value → Bool
  | .int m, .int n => m == n
  | .bool a, .bool b => a == b
  | .pair x y, .pair x' y' => x.equal x' && y.equal y'
  | .dict d, .dict d' => d.size == d'.size && d.foundIn d'
  | _, _ => false

/-- Whether each entry of a dictionary has an equal one, under its key, in another. -/
def Dict.foundIn : Dict → Dict → Bool
  | .nil, _ => true
  | .cons k v rest, d => (d.get? k).any (fun w => v.equal w) && rest.foundIn d

end

namespace Value

/-- The kind of a value. -/
def kind : Value → Kind
  | .int _ => .int
  | .bool _ => .bool
  | .pair _ _ => .pair
  | .dict _ => .dictionary

/-- A value with its kind, as error messages show it. -/
def described (v : Value) : String := v.kind.text ++ " " ++ v.text

end Value

end PairDict
