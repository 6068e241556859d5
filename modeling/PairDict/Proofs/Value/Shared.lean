import PairDict.Value

/-! # Dictionaries as trees that are shared

A dictionary can be kept as a **tree** which is changed in place, and of which everybody who
holds the dictionary knows the address only.  Then a change is seen by all of them.

So an operation on a dictionary first fills a new tree with the entries of the old one, and
changes the new one.  What it has made of the memory is one tree more, which is what the
operation on the dictionary itself gives (`Trees.insert_eq`, `Trees.erase_eq`); the memory
keeps all others as they were (`Trees.Keeps`).
-/
namespace PairDict

/-- The trees in a memory by their addresses. -/
abbrev Trees := List Dict

namespace Trees

/-- Set the value of a key in the tree at an address. -/
def put (r : Nat) (key : Int64) (value : Value) (m : Trees) : Trees := m.modify r (·.put key value)

/-- Drop the entry of a key in the tree at an address. -/
def remove (r : Nat) (key : Int64) (m : Trees) : Trees := m.modify r (·.remove key)

/-- Set the values of some keys in the tree at an address, one after another. -/
def fill (r : Nat) (es : List (Int64 × Value)) (m : Trees) : Trees :=
  es.foldl (fun m e => m.put r e.1 e.2) m

/-- A new tree without entries: its address, and the memory. -/
def create (m : Trees) : Nat × Trees := (m.length, m ++ [.empty])

/-- A new tree with the entries of the tree at an address. -/
def clone (r : Nat) (m : Trees) : Nat × Trees :=
  let (c, m') := m.create
  (c, m'.fill c ((m'[r]?.map Dict.toList).getD []))

/-- A new tree with the entries of the tree at an address, but with `key` bound to `value`. -/
def insert (r : Nat) (key : Int64) (value : Value) (m : Trees) : Nat × Trees :=
  let (c, m') := m.clone r
  (c, m'.put c key value)

/-- A new tree with the entries of the tree at an address, but without `key`. -/
def erase (r : Nat) (key : Int64) (m : Trees) : Nat × Trees :=
  let (c, m') := m.clone r
  (c, m'.remove c key)

/-- What stands at an address of the one memory stands there in the other. -/
def Keeps (m m' : Trees) : Prop := ∀ (r : Nat) (d : Dict), m[r]? = some d → m'[r]? = some d

variable {m m' m'' : Trees} {r : Nat} {d : Dict}

theorem Keeps.refl (m : Trees) : m.Keeps m := fun _ _ h => h

theorem Keeps.trans (h : m.Keeps m') (h' : m'.Keeps m'') : m.Keeps m'' :=
  fun r d hr => h' r d (h r d hr)

theorem keeps_append (m new : Trees) : m.Keeps (m ++ new) := fun _ _ h =>
  (List.getElem?_append_left (List.getElem?_eq_some_iff.1 h).1).trans h

theorem modify_last (m : Trees) (d : Dict) (f : Dict → Dict) :
    (m ++ [d]).modify m.length f = m ++ [f d] := by
  induction m with
  | nil => rfl
  | cons d' m ih => exact congrArg (d' :: ·) ih

theorem fill_last (m : Trees) (d : Dict) (es : List (Int64 × Value)) :
    fill m.length es (m ++ [d]) = m ++ [es.foldl (fun c e => c.put e.1 e.2) d] := by
  induction es generalizing d with
  | nil => rfl
  | cons e es ih => rw [fill, List.foldl_cons, put, modify_last, ← fill, ih, List.foldl_cons]

/-- **A clone is a copy at a new address.** -/
theorem clone_eq (h : m[r]? = some d) : m.clone r = (m.length, m ++ [d.copy]) := by
  rw [clone, create]
  dsimp only
  rw [keeps_append m [.empty] r d h]
  exact congrArg (Prod.mk m.length) (fill_last m .empty d.toList)

theorem insert_eq (h : m[r]? = some d) (key : Int64) (value : Value) :
    m.insert r key value = (m.length, m ++ [d.insert key value]) := by
  rw [insert, clone_eq h]
  exact congrArg (Prod.mk m.length) (modify_last m d.copy _)

theorem erase_eq (h : m[r]? = some d) (key : Int64) :
    m.erase r key = (m.length, m ++ [d.erase key]) := by
  rw [erase, clone_eq h]
  exact congrArg (Prod.mk m.length) (modify_last m d.copy _)

end Trees

end PairDict
