import PairDict.Command.Diagnostics
import PairDict.Text.Blank

/-! # Interactive sessions

Each line of a session is a complete program, which is run at once; variables do
not carry over.  A line that starts with a colon is a **command**: it shows the
help, switches type checking, or ends the session.  Blank lines do nothing.  White
space around a line is dropped, and commands can be written in capitals.
-/
namespace PairDict

/-- What a session remembers from line to line, and how it reports. -/
structure Session where
  /-- Whether programs are checked. -/
  typecheck : Bool
  /-- When diagnostics are coloured. -/
  color : Color
  /-- How long phases took, if they are to be traced. -/
  trace : Option (Phase → String) := none

/-- What a session answers to a line. -/
structure Reply where
  /-- The session afterwards. -/
  session : Session
  /-- Whether it is over. -/
  quit : Bool := false
  /-- What goes to standard output. -/
  stdout : List UInt8 := []
  /-- What goes to standard error. -/
  stderr : List UInt8 := []

namespace Session

/-- The answer to a request for help. -/
def helpText : String :=
  "Each line is run as a complete program; variables do not carry over.\n" ++
  "Commands:\n" ++
  "  :help   show this message\n" ++
  "  :notc   toggle static type checking\n" ++
  "  :quit   leave the session\n"

/-- A line without the white space around it. -/
def trim (line : List UInt8) : List Glyph :=
  Blank.trimBy (fun | .char c => Blank.isBlank c | .stray _ => false) (Utf8.decode line)

/-- The small letter of a character, where it is one of the Latin letters.  Two
characters beyond ASCII have such a small letter. -/
def toSmall (c : Char) : Char :=
  if c = '\u0130' then 'i' else if c = '\u212a' then 'k' else c.toLower

/-- A command in small letters; none if it is no text. -/
def command? (line : List Glyph) : Option String :=
  (Utf8.chars? line).map fun cs => String.ofList (cs.map toSmall)

/-- Run a line as a program. -/
def runLine (s : Session) (line : List Glyph) : Reply :=
  let (result, out) :=
    Pipeline.run s.typecheck .all "" ⟨"<repl>", Utf8.encode line, none⟩
  let traced := match s.trace with
    | some elapsed =>
      (Trace.entered s.typecheck result).flatMap fun p => Utf8.ofString (Trace.line elapsed p)
    | none => []
  let complaint := match result with
    | .ok _ => []
    | .error f => Diagnostics.failure s.color f
  { session := s, stdout := Utf8.ofString out, stderr := traced ++ complaint }

/-- Carry out a command. -/
def runCommand (s : Session) (line : List Glyph) : Reply :=
  match command? line with
  | some ":quit" | some ":q" => { session := s, quit := true }
  | some ":help" => { session := s, stdout := Utf8.ofString helpText }
  | some ":notc" =>
    { session := { s with typecheck := !s.typecheck },
      stdout := Utf8.ofString ("type checking " ++ (if s.typecheck then "off" else "on") ++ "\n") }
  | _ =>
    { session := s,
      stdout := Utf8.ofString "unknown command " ++ Utf8.encode line ++
        Utf8.ofString ". Type :help for help.\n" }

/-- Answer a line. -/
def eval (s : Session) (line : List UInt8) : Reply :=
  match trim line with
  | [] => { session := s }
  | g :: gs => if g.isChar ':' then s.runCommand (g :: gs) else s.runLine (g :: gs)

end Session

end PairDict
