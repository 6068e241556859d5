import PairDict.Pos
import PairDict.Token

/-! # Lexemes and token streams

A **lexeme** is a word at a position.  A **token stream** is what a source holds:
lexemes in order, and then one of two ends, the end of the source or the failure
that keeps the rest from being read.  A stream is a list with its end in it, so a
reader that looks at the front of a stream always finds a lexeme, the end of the
source, or the reason why there is neither.

A failure is a **lexical error**, which points into the source, or a **read
error**, when the source itself could not be delivered.
-/
namespace PairDict

/-- A word of a source. -/
structure Lexeme where
  /-- The word. -/
  word : Word
  /-- The position of its first character. -/
  pos : Pos
  deriving DecidableEq, Repr, Inhabited

/-- A place where the source text holds no word. -/
inductive LexError where
  /-- No word starts here; `rejected` is the rest of the line. -/
  | unrecognized (pos : Pos) (rejected : List Glyph)
  /-- A number that is too large to be one. -/
  | outOfRange (pos : Pos) (literal : String)
  deriving DecidableEq, Repr

namespace LexError

/-- The start of the rejected text. -/
def pos : LexError → Pos
  | .unrecognized p _ => p
  | .outOfRange p _ => p

/-- The bytes of the text that was rejected. -/
def rejected : LexError → List UInt8
  | .unrecognized _ gs => Utf8.encode gs
  | .outOfRange _ s => Utf8.ofString s

/-- What is wrong with a number; empty if nothing was recognized at all. -/
def complaint : LexError → String
  | .unrecognized _ _ => ""
  | .outOfRange _ s => "integer literal " ++ s ++ " out of range"

/-- The error as it is reported.  The rejected text is repeated byte by byte, so
the message need not be well-formed text. -/
def message (e : LexError) : List UInt8 :=
  match e with
  | .unrecognized p _ =>
    Utf8.ofString (p.text ++ ": unrecognized token starting at '") ++ e.rejected ++
      Utf8.ofString "'"
  | .outOfRange p _ => Utf8.ofString (p.text ++ ": " ++ e.complaint)

end LexError

/-- Why a stream ends before the end of its source. -/
inductive ScanError where
  /-- The text holds no word at some place. -/
  | lex (e : LexError)
  /-- The text of `file` could not be read. -/
  | read (file cause : String)
  deriving DecidableEq, Repr

namespace ScanError

/-- The error as it is reported. -/
def message : ScanError → List UInt8
  | .lex e => e.message
  | .read file cause => Utf8.ofString ("reading " ++ file ++ ": " ++ cause)

/-- The position of the error.  A read error has none. -/
def pos : ScanError → Pos
  | .lex e => e.pos
  | .read _ _ => .none

end ScanError

/-- The lexemes of a source and how it ends. -/
inductive TokenStream where
  /-- The end of the source. -/
  | eof (pos : Pos)
  /-- The source cannot be read any further. -/
  | failed (e : ScanError)
  /-- A lexeme, and what follows it. -/
  | cons (head : Lexeme) (rest : TokenStream)
  deriving DecidableEq, Repr

namespace TokenStream

/-- The number of lexemes. -/
def length : TokenStream → Nat
  | .eof _ | .failed _ => 0
  | .cons _ rest => rest.length + 1

@[simp] theorem length_eof (p : Pos) : (eof p).length = 0 := rfl

@[simp] theorem length_failed (e : ScanError) : (failed e).length = 0 := rfl

@[simp] theorem length_cons (l : Lexeme) (s : TokenStream) : (cons l s).length = s.length + 1 :=
  rfl

/-- The lexemes, without the end. -/
def lexemes : TokenStream → List Lexeme
  | .eof _ | .failed _ => []
  | .cons l rest => l :: rest.lexemes

/-- The failure that ends the stream, if one does. -/
def failure? : TokenStream → Option ScanError
  | .eof _ => none
  | .failed e => some e
  | .cons _ rest => rest.failure?

/-- The position of whatever stands at the front. -/
def pos : TokenStream → Pos
  | .eof p => p
  | .failed e => e.pos
  | .cons l _ => l.pos

/-- The kind of whatever stands at the front. -/
def token : TokenStream → Token
  | .eof _ => .eof
  | .failed _ => .error
  | .cons l _ => l.word.token

/-- The spelling of the front lexeme; the ends of a stream have none. -/
def literal : TokenStream → String
  | .eof _ | .failed _ => ""
  | .cons l _ => l.word.literal

/-- The stream without its front.  Both ends are final. -/
def tail : TokenStream → TokenStream
  | .cons _ rest => rest
  | s => s

/-- The streams that a reader sees, one after another, until the end. -/
def suffixes : TokenStream → List TokenStream
  | .cons l rest => .cons l rest :: rest.suffixes
  | s => [s]

end TokenStream

end PairDict
