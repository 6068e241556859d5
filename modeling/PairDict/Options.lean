/-! # The command line

Options are single letters after a dash and can be put together after one dash.
Three of them take an **argument**: the rest of their word if there is any, and
otherwise the next word, whatever it is.  Options end at the first word that is
empty, a lone dash, or does not start with a dash; or after `--`, which is
dropped.

What is left is the program to run, unless an option names one already.  Nothing
may be left after that.
-/
namespace PairDict

/-- What the command line asks for. -/
structure Options where
  /-- The file of the program; standard input if empty. -/
  input : String := ""
  /-- The file that takes the output; standard output if empty. -/
  output : String := ""
  /-- The settings file; none if empty. -/
  config : String := ""
  /-- Do not check types. -/
  noTypecheck : Bool := false
  /-- Show the tokens. -/
  tokens : Bool := false
  /-- Show the tree. -/
  tree : Bool := false
  /-- Show trees as documents. -/
  json : Bool := false
  /-- Show the tree with its types. -/
  typedTree : Bool := false
  /-- Start an interactive session. -/
  interactive : Bool := false
  /-- Time the phases. -/
  trace : Bool := false
  /-- Show the version. -/
  version : Bool := false
  /-- Show the usage. -/
  help : Bool := false
  deriving DecidableEq, Repr

/-- Why a command line makes no sense. -/
inductive OptionsError where
  /-- There is no such option. -/
  | unknown (letter : Char)
  /-- An option lacks its argument. -/
  | missing (letter : Char)
  /-- Words are left over. -/
  | unexpected (words : List String)
  deriving DecidableEq, Repr

namespace OptionsError

/-- The error as it is reported. -/
def message : OptionsError → String
  | .unknown c => "labo: unknown option -" ++ c.toString
  | .missing c => "labo: expected argument for -" ++ c.toString
  | .unexpected ws => "unexpected arguments: " ++ " ".intercalate ws

end OptionsError

namespace Options

/-- Set an option without an argument. -/
def flag? (o : Options) : Char → Option Options
  | 'n' => some { o with noTypecheck := true }
  | 't' => some { o with tokens := true }
  | 'a' => some { o with tree := true }
  | 'j' => some { o with json := true }
  | 'y' => some { o with typedTree := true }
  | 'r' => some { o with interactive := true }
  | 'x' => some { o with trace := true }
  | 'v' => some { o with version := true }
  | 'h' => some { o with help := true }
  | _ => none

/-- How to set an option with an argument. -/
def argument? (o : Options) : Char → Option (String → Options)
  | 'i' => some fun s => { o with input := s }
  | 'o' => some fun s => { o with output := s }
  | 'c' => some fun s => { o with config := s }
  | _ => none

/-- What reading the letters of one word leaves to do. -/
inductive Cluster where
  /-- Nothing. -/
  | done (o : Options)
  /-- The last letter still needs an argument. -/
  | open (letter : Char) (set : String → Options)
  /-- A letter is no option. -/
  | unknown (letter : Char)

/-- Read the letters of one word. -/
def cluster (o : Options) : List Char → Cluster
  | [] => .done o
  | c :: cs =>
    match o.argument? c with
    | some set => if cs.isEmpty then .open c set else .done (set (.ofList cs))
    | none =>
      match o.flag? c with
      | some o' => cluster o' cs
      | none => .unknown c

/-- Read the options at the front of a command line; what is left. -/
def leading (o : Options) : List String → Except OptionsError (Options × List String)
  | [] => .ok (o, [])
  | w :: ws =>
    match w.toList with
    | '-' :: c :: cs =>
      if c = '-' && cs.isEmpty then .ok (o, ws)
      else match o.cluster (c :: cs) with
        | .done o' => leading o' ws
        | .unknown c => .error (.unknown c)
        | .open c set =>
          match ws with
          | [] => .error (.missing c)
          | v :: ws => leading (set v) ws
    | _ => .ok (o, w :: ws)

/-- Read a command line, without the name of the command. -/
def parse (args : List String) : Except OptionsError Options := do
  let (o, ws) ← leading {} args
  match ws with
  | [] => return o
  | w :: ws =>
    let (o, left) := if o.input = "" then ({ o with input := w }, ws) else (o, w :: ws)
    if left.isEmpty then return o else throw (.unexpected left)

end Options

end PairDict
