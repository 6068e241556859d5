import PairDict.Text.Utf8

/-! # Source positions

A position names a file, a line and a column, both counted from one.  A column
counts glyphs, so a stray byte is one column wide.  A position whose line is not
positive is **invalid**: it belongs to nothing in any source, and prints as `-`.
-/
namespace PairDict

/-- A place in a source text. -/
structure Pos where
  /-- The name of the source; empty when it is unknown. -/
  file : String
  /-- The line, the first one being 1. -/
  line : Int
  /-- The column, the first one being 1. -/
  col : Int
  deriving DecidableEq, Repr, Inhabited

namespace Pos

/-- The position of no source at all. -/
def none : Pos := ⟨"", 0, 0⟩

/-- The position of the first glyph of `file`. -/
def start (file : String) : Pos := ⟨file, 1, 1⟩

/-- Whether the position denotes a place in a source. -/
def isValid (p : Pos) : Bool := decide (0 < p.line)

/-- The same line and column in another file. -/
def withFile (p : Pos) (file : String) : Pos := { p with file }

/-- The position after a glyph at `p`: a newline ends the line. -/
def next (p : Pos) (g : Glyph) : Pos :=
  if g.isChar '\n' then { p with line := p.line + 1, col := 1 }
  else { p with col := p.col + 1 }

/-- The position after a run of glyphs that starts at `p`. -/
def advance (p : Pos) (gs : List Glyph) : Pos := gs.foldl next p

/-- How a position is written: `file:line:col`, without the file when it is
unknown. -/
def text (p : Pos) : String :=
  if p.isValid then
    let place := toString p.line ++ ":" ++ toString p.col
    if p.file = "" then place else p.file ++ ":" ++ place
  else "-"

end Pos

end PairDict
