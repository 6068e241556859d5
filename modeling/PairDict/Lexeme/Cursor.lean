import PairDict.Lexeme

/-! # A cursor over a token stream

A cursor stands **before** a stream until it is first moved, and afterwards **on**
the front of some later part of it.  Moving it at either end of the stream leaves
it there, so the end of the source and a failure are repeated for ever.

What the cursor stands on can be asked for at any time.  Asking for a value that
is not there is a *misuse* of the cursor and says so; it is never a fault of the
source.
-/
namespace PairDict

/-- A place in a token stream. -/
inductive Cursor where
  /-- Nothing was read yet. -/
  | before (s : TokenStream)
  /-- On the front of `s`. -/
  | on (s : TokenStream)
  deriving DecidableEq, Repr

/-- A value that was asked for where there is none. -/
inductive Misuse where
  /-- The cursor was never moved. -/
  | nothingRead
  /-- The cursor stands on a token of another kind. -/
  | wrongToken (wanted found : Token)
  deriving DecidableEq, Repr

namespace Misuse

/-- What was done wrong. -/
def complaint : Misuse → String
  | .nothingRead => "no token was recognized"
  | .wrongToken wanted found =>
    "no token of kind " ++ wanted.text ++ " was recognized (have " ++ found.text ++ ")"

/-- The misuse as it is reported. -/
def message (m : Misuse) : String := "precondition violated: " ++ m.complaint

end Misuse

namespace Cursor

/-- The cursor after one move. -/
def next : Cursor → Cursor
  | .before s => .on s
  | .on s => .on s.tail

/-- The kind of token under the cursor; before the first move, that of an empty
source. -/
def token : Cursor → Token
  | .before _ => .eof
  | .on s => s.token

/-- The spelling of the word under the cursor. -/
def literal : Cursor → String
  | .before _ => ""
  | .on s => s.literal

/-- The position of what is under the cursor. -/
def pos : Cursor → Pos
  | .before _ => .none
  | .on s => s.pos

/-- The failure that was met.  A source that could not be read has failed before
the first move. -/
def failure? : Cursor → Option ScanError
  | .before (.failed (.read file cause)) => some (.read file cause)
  | .on (.failed e) => some e
  | _ => none

/-- The number under the cursor. -/
def int : Cursor → Except Misuse Int64
  | .before _ => .error .nothingRead
  | .on (.cons ⟨.num n, _⟩ _) => .ok n
  | .on s => .error (.wrongToken .num s.token)

/-- The truth value under the cursor. -/
def bool : Cursor → Except Misuse Bool
  | .before _ => .error .nothingRead
  | .on (.cons ⟨.bool b, _⟩ _) => .ok b
  | .on s => .error (.wrongToken .bool s.token)

end Cursor

end PairDict
