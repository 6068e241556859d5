import PairDict.Lexeme.Scan
import PairDict.Run.Exec
import PairDict.Tree.Parser
import PairDict.Typing.Check

/-! # From source to output

A program goes through four **phases**: its source is read into lexemes, these are
parsed into a tree, the tree is checked, and then it runs.  The first phase that
fails ends the matter, and its failure says which phase it was.  A source that
cannot be read fails in the first phase.

Checking can be left out.  Nothing is printed before the last phase.
-/
namespace PairDict

variable {σ : Type}

/-- A stage in the life of a program. -/
inductive Phase where
  | lex | parse | typecheck | execute
  deriving DecidableEq, Repr

/-- How a phase is written. -/
def Phase.text : Phase → String
  | .lex => "lex"
  | .parse => "parse"
  | .typecheck => "typecheck"
  | .execute => "execute"

/-- Why a program failed. -/
inductive Failure where
  /-- Its source cannot be read into lexemes. -/
  | lex (e : ScanError)
  /-- Its lexemes are not a program. -/
  | parse (e : ParseError)
  /-- Its types do not fit. -/
  | typecheck (e : TypeError Pos)
  /-- It stopped while it ran. -/
  | execute (f : Fault Pos)

namespace Failure

/-- The phase that failed. -/
def phase : Failure → Phase
  | .lex _ => .lex
  | .parse _ => .parse
  | .typecheck _ => .typecheck
  | .execute _ => .execute

/-- The failure as it is reported. -/
def message : Failure → List UInt8
  | .lex e => e.message
  | .parse e => Utf8.ofString e.message
  | .typecheck e => Utf8.ofString e.message
  | .execute f => Utf8.ofString f.message

/-- The failure of the phase that a syntax error belongs to. -/
def ofSyntax : SyntaxError → Failure
  | .scan e => .lex e
  | .parse e => .parse e

end Failure

namespace Pipeline

/-- Read and parse a source. -/
def parse (src : Source) : Except Failure (Program Pos) :=
  match src.tokens.program with
  | .ok p => .ok p
  | .error e => .error (.ofSyntax e)

/-- Check a program, if it is to be checked. -/
def check (typecheck : Bool) (p : Program Pos) : Except Failure Unit :=
  if typecheck then
    match p.check.1 with
    | .ok _ => .ok ()
    | .error e => .error (.typecheck e)
  else .ok ()

/-- Run a program. -/
def execute (sink : Sink σ) (out : σ) (p : Program Pos) : Except Failure Unit × σ :=
  match p.run sink out with
  | (.ok _, out') => (.ok (), out')
  | (.error f, out') => (.error (.execute f), out')

/-- Take a source through every phase. -/
def run (typecheck : Bool) (sink : Sink σ) (out : σ) (src : Source) : Except Failure Unit × σ :=
  match parse src with
  | .error e => (.error e, out)
  | .ok p =>
    match check typecheck p with
    | .error e => (.error e, out)
    | .ok _ => execute sink out p

end Pipeline

end PairDict
