import PairDict.Pipeline
import PairDict.Settings

/-! # Diagnostics

What a command writes beside its output.  A **diagnostic** is a line that starts
with a label: the phase that failed, or the name of the command where no phase is
to blame.  The label may be coloured, in which case the terminal is told to change
its colour before the label and nothing after it.

A **trace** has a line for every phase that was entered, with how long it took; a
phase that fails is timed too.
-/
namespace PairDict

/-- Pad a text with blanks on the right to a number of characters. -/
def padRight (width : Nat) (s : String) : String :=
  s ++ String.ofList (List.replicate (width - s.length) ' ')

namespace Diagnostics

/-- What makes a terminal write bold and red. -/
def alarm : String := "\x1b[31;1m"

/-- Whether labels are coloured, when diagnostics do not go to a terminal. -/
def isColored (c : Color) : Bool := c = .always

/-- A diagnostic line. -/
def line (color : Color) (label : String) (message : List UInt8) : List UInt8 :=
  Utf8.ofString ((if isColored color then alarm else "") ++ label ++ " ") ++ message ++
    Utf8.ofString "\n"

/-- The diagnostic of a failure. -/
def failure (color : Color) (f : Failure) : List UInt8 :=
  line color (f.phase.text ++ " error:") f.message

/-- The diagnostic of something that is no fault of a program. -/
def fatal (color : Color) (message : String) : List UInt8 :=
  line color "labo:" (Utf8.ofString message)

end Diagnostics

namespace Trace

/-- The line of one phase. -/
def line (elapsed : Phase → String) (p : Phase) : String :=
  "labo: " ++ padRight 9 p.text ++ " " ++ elapsed p ++ "\n"

/-- The phases that a run which ended with `result` has entered.  Reading and
parsing are timed as one. -/
def entered (typecheck : Bool) (result : Except Failure Unit) : List Phase :=
  match result with
  | .error (.lex _) | .error (.parse _) => [.parse]
  | .error (.typecheck _) => [.parse, .typecheck]
  | .error (.execute _) | .ok _ =>
    if typecheck then [.parse, .typecheck, .execute] else [.parse, .execute]

end Trace

end PairDict
