/-! # Paths

A path is a list of names between slashes.  A path that starts with a slash is
**absolute**.  Cleaning a path drops empty names and dots, and lets each double dot
take the name before it away; at the root there is nothing to take away.
-/
namespace PairDict.Path

/-- Whether a path starts at the root. -/
def isAbsolute (p : String) : Bool := p.toList.head? = some '/'

/-- The runs of characters between slashes, of which there is one more than there are
slashes. -/
def pieces : List Char → List (List Char)
  | [] => [[]]
  | c :: cs =>
    if c = '/' then [] :: pieces cs
    else match pieces cs with
      | [] => [[c]]
      | piece :: rest => (c :: piece) :: rest

/-- The names between the slashes. -/
def names (p : String) : List String := (pieces p.toList).map String.ofList

/-- Add one name to a clean path, given by its names from the last to the
first. -/
def push (absolute : Bool) (clean : List String) (name : String) : List String :=
  if name = "" || name = "." then clean
  else if name = ".." then
    match clean with
    | [] => if absolute then [] else [".."]
    | last :: rest => if last = ".." then ".." :: clean else rest
  else name :: clean

/-- The path without detours. -/
def clean (p : String) : String :=
  let absolute := isAbsolute p
  let path := "/".intercalate ((names p).foldl (push absolute) []).reverse
  if absolute then "/" ++ path
  else if path = "" then "." else path

/-- A path taken from a directory. -/
def join (dir name : String) : String := clean (dir ++ "/" ++ name)

end PairDict.Path
