import PairDict.Lexeme.Cursor
import PairDict.Lexeme.Scan

/-! # Scanning on demand

A scanner reads a source one token at a time, when it is asked for the next one, and keeps
what it found in registers: the kind of the token, its literal, its position, the last
number and the last truth value.  Each branch of `Scanner.next` writes some of the registers
and leaves the others as they are.

The first failure is final.  A source that could not be read has failed before the first
token is asked for.
-/
namespace PairDict

/-- The number that a word carries. -/
def Word.number? : Word → Option Int64
  | .num n => some n
  | _ => none

/-- The truth value that a word carries. -/
def Word.truth? : Word → Option Bool
  | .bool b => some b
  | _ => none

/-- A source that is read on demand, and the registers for what was read last. -/
structure Scanner where
  /-- The text that was not read yet. -/
  unread : List Glyph
  /-- The position of its first glyph. -/
  here : Pos
  /-- The kind of the token. -/
  token : Token := .eof
  /-- The text of the token. -/
  literal : String := ""
  /-- The position of the token. -/
  pos : Pos := .none
  /-- The last number that was read. -/
  number : Int64 := 0
  /-- The last truth value that was read. -/
  truth : Bool := false
  /-- Whether a token was asked for. -/
  started : Bool := false
  /-- The failure that was met. -/
  failure? : Option ScanError
  deriving DecidableEq, Repr

namespace Scanner

/-- A scanner at the start of a source. -/
def ofSource (src : Source) : Scanner where
  unread := Utf8.decode src.bytes
  here := .start src.name
  failure? := src.failure.map (.read src.name)

/-- Pass over a gap, to where the next token starts. -/
def skip (s : Scanner) : Scanner :=
  let (gap, rest) := Scan.splitGap false s.unread
  let here := s.here.advance gap
  { s with unread := rest, here, pos := here, literal := "" }

/-- Take a word that was read off the text. -/
def take (s : Scanner) (w : Word) (text rest : List Glyph) : Scanner :=
  { s with
    unread := rest
    here := s.here.advance text
    token := w.token
    literal := .ofList (Scan.spelling text)
    number := w.number?.getD s.number
    truth := w.truth?.getD s.truth }

/-- Fail for good. -/
def fail (s : Scanner) (e : LexError) : Scanner :=
  { s with token := .error, literal := "", failure? := some (.lex e) }

/-- Read the token that starts here. -/
def read (s : Scanner) : Scanner :=
  match Scan.read s.unread with
  | .word w text rest => s.take w text rest
  | .tooLarge text => s.fail (.outOfRange s.pos (.ofList (Scan.spelling text)))
  | .nothing =>
    match s.unread with
    | [] => { s with token := .eof }
    | rest => s.fail (.unrecognized s.pos (Scan.restOfLine rest))

/-- Ask for the next token. -/
def next (s : Scanner) : Scanner :=
  let s := { s with started := true }
  match s.failure? with
  | some _ => { s with token := .error }
  | none => s.skip.read

/-- The line of the token. -/
def line (s : Scanner) : Int := s.pos.line

/-- What is wrong with asking for a value of the kind `wanted`. -/
def check (s : Scanner) (wanted : Token) : Except Misuse Unit :=
  if s.started = false then .error .nothingRead
  else if s.token ≠ wanted then .error (.wrongToken wanted s.token)
  else .ok ()

/-- The number that was read. -/
def int (s : Scanner) : Except Misuse Int64 := do
  s.check .num
  return s.number

/-- The truth value that was read. -/
def bool (s : Scanner) : Except Misuse Bool := do
  s.check .bool
  return s.truth

/-- What a scanner can be asked. -/
inductive Call where
  | next | token | literal | pos | line | int | bool | failure
  deriving DecidableEq, Repr

/-- What a scanner answers. -/
inductive Answer where
  | token (t : Token)
  | literal (s : String)
  | pos (p : Pos)
  | line (n : Int)
  | int (r : Except Misuse Int64)
  | bool (r : Except Misuse Bool)
  | failure (e : Option ScanError)
  deriving Repr

/-- One call: the scanner after it, and its answer.  A move is answered by the kind of token
that it comes to. -/
def call (s : Scanner) : Call → Scanner × Answer
  | .next => (s.next, .token s.next.token)
  | .token => (s, .token s.token)
  | .literal => (s, .literal s.literal)
  | .pos => (s, .pos s.pos)
  | .line => (s, .line s.line)
  | .int => (s, .int s.int)
  | .bool => (s, .bool s.bool)
  | .failure => (s, .failure s.failure?)

/-- The scanner after some calls. -/
def after (s : Scanner) (calls : List Call) : Scanner :=
  calls.foldl (fun s c => (s.call c).1) s

end Scanner

end PairDict
