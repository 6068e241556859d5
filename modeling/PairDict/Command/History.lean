import PairDict.Path
import PairDict.Text.Utf8

/-! # The history of interactive sessions

A history is the lines that were entered, oldest first, with no line directly
after itself.  It holds a thousand lines at most and then forgets the oldest.

Lines are read from bytes through a buffer of fixed size: a line that does not fit
comes in pieces.  A history file is read up to the first line that is too long or
is no text.
-/
namespace PairDict

namespace Lines

/-- The number of bytes that are read ahead at most. -/
def bufferSize : Nat := 4096

/-- A piece of input. -/
structure Piece where
  /-- The bytes, without the end of the line. -/
  bytes : List UInt8
  /-- Whether the line goes on in the next piece. -/
  unfinished : Bool
  deriving DecidableEq, Repr

/-- The bytes of a line without a carriage return at the end. -/
def chomp (bs : List UInt8) : List UInt8 :=
  if bs.getLast? = some 13 then bs.dropLast else bs

/-- The first piece of some input and what follows it, if there is any input. -/
def next? (bs : List UInt8) : Option (Piece × List UInt8) :=
  let line := bs.takeWhile (· ≠ 10)
  if bs.isEmpty then none
  else if bufferSize ≤ line.length then
    let piece := line.take bufferSize
    some (⟨chomp piece, true⟩, bs.drop (chomp piece).length)
  else if line.length < bs.length then
    some (⟨chomp line, false⟩, bs.drop (line.length + 1))
  else some (⟨line, false⟩, [])

/-- The pieces of some input, of which there are at most `fuel`. -/
def piecesUpTo : Nat → List UInt8 → List Piece
  | 0, _ => []
  | fuel + 1, bs =>
    match next? bs with
    | none => []
    | some (p, rest) => p :: piecesUpTo fuel rest

/-- The pieces of some input. -/
def pieces (bs : List UInt8) : List Piece := piecesUpTo bs.length bs

end Lines

namespace History

/-- The number of lines that are kept. -/
def limit : Nat := 1000

/-- The last lines of a history, as many as are kept. -/
def trim (lines : List (List UInt8)) : List (List UInt8) := lines.drop (lines.length - limit)

/-- A history with one more line. -/
def push (lines : List (List UInt8)) (line : List UInt8) : List (List UInt8) :=
  if lines.getLast? = some line then lines else trim (lines ++ [line])

/-- Read a history file. -/
def read (bytes : List UInt8) : List (List UInt8) :=
  let good := (Lines.pieces bytes).takeWhile fun p =>
    !p.unfinished && (Utf8.toString? p.bytes).isSome
  trim (good.map Lines.Piece.bytes)

/-- What a history file holds. -/
def write (lines : List (List UInt8)) : List UInt8 := lines.flatMap (· ++ [10])

/-- Where the history is kept: nowhere if the name is empty, at an absolute path as
it is, and at any other name in the home directory, if there is one. -/
def path (home : Option String) (name : String) : String :=
  if name = "" || Path.isAbsolute name then name
  else match home with
    | none => ""
    | some dir => if dir = "" then "" else Path.join dir name

end History

end PairDict
