import PairDict.Pos
import PairDict.Scope
import PairDict.Token
import PairDict.Tree
import PairDict.Value

/-! # Run-time faults

What can stop a running program.  A program that was checked can only meet a
missing key or an output that takes no more; everything else can happen only to
programs that were not checked.
-/
namespace PairDict

/-- Why a program stops. -/
inductive Cause where
  /-- A name is used in a way its scope forbids. -/
  | scope (e : ScopeError)
  /-- A component of something that is not a pair. -/
  | notAPair (found : Value)
  /-- An operation on, or a loop over, something that is not a dictionary. -/
  | notADictionary (found : Value)
  /-- A key that the dictionary does not have. -/
  | missingKey (key : Int64)
  /-- An operand of the wrong kind. -/
  | mismatch (found : Value) (expected : Kind)
  /-- A unary operator that is none. -/
  | badUnary (op : Token)
  /-- A binary operator that is none. -/
  | badBinary (op : Token)
  /-- A dictionary operation that is none. -/
  | badDictOp (op : DictOp)
  /-- The output refused a line. -/
  | write (message : String)

namespace Cause

/-- The cause as it is reported. -/
def message : Cause → String
  | .scope e => e.message
  | .notAPair v => "not a pair: " ++ v.described
  | .notADictionary v => "not a dictionary: " ++ v.described
  | .missingKey k => "missing key " ++ toString k.toInt
  | .mismatch v expected => "found " ++ v.described ++ ", expected " ++ expected.text
  | .badUnary op => "unexpected unary operator " ++ op.text
  | .badBinary op => "unexpected binary operator " ++ op.text
  | .badDictOp op => "unexpected dictionary operation " ++ op.text
  | .write m => m

end Cause

/-- A cause and the annotation of the node to blame. -/
structure Fault (α : Type) where
  /-- Where it is. -/
  ann : α
  /-- What it is. -/
  cause : Cause

/-- The fault as it is reported. -/
def Fault.message (f : Fault Pos) : String := f.ann.text ++ ": " ++ f.cause.message

end PairDict
