import PairDict.Path

/-! # Files and directories

The files that a command sees: directories and files by the names on the way to
them, and the directory that relative paths start from.  A path is followed name
by name, and every name but the last has to be a directory.

What is opened can be read, up to its end or up to a failure: a directory can be
opened like a file, but reading from it fails at once, and a file may be one that can
be read only in part.  Creating a file empties it if it exists.
-/
namespace PairDict

/-- What reading gives: some bytes, and what kept it from giving more than these. -/
structure Delivery where
  /-- The bytes. -/
  bytes : List UInt8
  /-- The failure that ended the reading, if it was not the end. -/
  failure : Option String := none
  deriving DecidableEq, Repr

/-- Why something cannot be done to a file. -/
inductive FileProblem where
  /-- Nothing is there. -/
  | missing
  /-- A directory is there. -/
  | isDirectory
  /-- A name on the way is no directory. -/
  | notDirectory
  /-- The path or a name in it is too long. -/
  | tooLong
  /-- The path holds a character that no path can hold. -/
  | invalid
  /-- What is there cannot be read. -/
  | faulty
  deriving DecidableEq, Repr

/-- What stands at a place. -/
inductive Entry where
  /-- A file: the bytes that can be read from it, and what keeps the rest from being
  read, if there is more. -/
  | file (bytes : List UInt8) (fault : Option FileProblem)
  /-- A directory. -/
  | dir
  deriving DecidableEq, Repr

namespace FileProblem

/-- How a problem is written. -/
def text : FileProblem → String
  | .missing => "no such file or directory"
  | .isDirectory => "is a directory"
  | .notDirectory => "not a directory"
  | .tooLong => "file name too long"
  | .invalid => "invalid argument"
  | .faulty => "input/output error"

end FileProblem

/-- Something that could not be done to a file. -/
structure FileError where
  /-- What was tried. -/
  action : String
  /-- The path as it was given. -/
  path : String
  /-- What stood in the way. -/
  problem : FileProblem
  deriving DecidableEq, Repr

/-- The error as it is reported. -/
def FileError.message (e : FileError) : String :=
  e.action ++ " " ++ e.path ++ ": " ++ e.problem.text

/-- Files and directories. -/
structure Files where
  /-- The directory that relative paths start from, by the names on the way to
  it, the last one first. -/
  current : List String
  /-- What there is besides the root, by the names on the way, the last one
  first. -/
  entries : List (List String × Entry)
  deriving DecidableEq, Repr

namespace Files

/-- What stands at a place.  The root is a directory. -/
def entry? (fs : Files) (place : List String) : Option Entry :=
  if place.isEmpty then some .dir else fs.entries.lookup place

/-- The most bytes that a name can have. -/
def nameLimit : Nat := 255

/-- A number of bytes that a path cannot have. -/
def pathLimit : Nat := 4096

/-- Follow names from a directory. -/
def follow (fs : Files) (place : List String) : List String → Except FileProblem (List String)
  | [] => .ok place
  | name :: rest =>
    match fs.entry? place with
    | none => .error .missing
    | some (.file ..) => .error .notDirectory
    | some .dir =>
      if name = "" || name = "." then follow fs place rest
      else if name = ".." then follow fs place.tail rest
      else if nameLimit < name.utf8ByteSize then .error .tooLong
      else follow fs (name :: place) rest

/-- The place that names lead to from where a path starts. -/
def locateFrom (fs : Files) (path : String) (names : List String) :
    Except FileProblem (List String) :=
  if path.toList.contains '\x00' then .error .invalid
  else if pathLimit ≤ path.utf8ByteSize then .error .tooLong
  else fs.follow (if Path.isAbsolute path then [] else fs.current) names

/-- The place that a path leads to. -/
def locate (fs : Files) (path : String) : Except FileProblem (List String) :=
  fs.locateFrom path (Path.names path)

/-- Open a path for reading. -/
def openFor (fs : Files) (path : String) : Except FileError Entry :=
  match fs.locate path with
  | .error p => .error ⟨"open", path, p⟩
  | .ok place =>
    match fs.entry? place with
    | none => .error ⟨"open", path, .missing⟩
    | some e => .ok e

/-- What reading gives of what was opened under a path. -/
def contents (path : String) : Entry → Delivery
  | .file bytes fault => ⟨bytes, fault.map fun p => FileError.message ⟨"read", path, p⟩⟩
  | .dir => ⟨[], some (FileError.message ⟨"read", path, .isDirectory⟩)⟩

/-- The place that a path leads to as the name of a file.  A path that ends in a
slash can only be that of a directory. -/
def locateFile (fs : Files) (path : String) : Except FileProblem (List String) :=
  let names := Path.names path
  if names.getLast? = some "" then do
    let parent ← fs.locateFrom path (names.reverse.dropWhile (· = "")).tail.reverse
    throw <| match fs.entry? parent with
      | none => .missing
      | some (.file ..) => .notDirectory
      | some .dir => .isDirectory
  else fs.locate path

/-- The place where a path would put a file. -/
def target (fs : Files) (path : String) : Except FileError (List String) :=
  match fs.locateFile path with
  | .error p => .error ⟨"open", path, p⟩
  | .ok place =>
    match fs.entry? place with
    | some .dir => .error ⟨"open", path, .isDirectory⟩
    | _ => .ok place

/-- Put a file at a place. -/
def put (fs : Files) (place : List String) (bytes : List UInt8) : Files :=
  { fs with
    entries :=
      if fs.entries.any (·.1 = place) then
        fs.entries.map fun e => if e.1 = place then (place, .file bytes none) else e
      else fs.entries ++ [(place, .file bytes none)] }

end Files

end PairDict
