import PairDict.Command.History
import PairDict.Command.Session
import PairDict.Files
import PairDict.Options
import PairDict.Tree.Document
import PairDict.Tree.Outline

/-! # The command

A command reads its options, then its settings, and then does one thing: it shows
its usage or its version, holds a session, shows the tokens or the tree of a
program, or runs the program.

It is a function of the **host** it runs on, its arguments, its standard input and
the files around it.  Reading may fail before the end of what is read.  It gives back
an **outcome**: the exit code, what was written to standard output and standard
error, and the files afterwards.

The file that takes the output is created when there is something to put into it:
when a program starts to run, or when a tree or the tokens are shown.  Until then
it is not touched, so a program that does not get that far leaves it alone, and so
does a tree that is too deep for a JSON document.  If it cannot be created, a run and
a JSON document report that; tokens and outlines are dropped.
-/
namespace PairDict

/-- What a command has to know about where it runs. -/
structure Host where
  /-- The home directory, if there is one. -/
  home : Option String
  /-- What the version report calls the toolchain. -/
  toolchain : String
  /-- How long a phase took. -/
  elapsed : Phase → String

/-- What a command leaves behind. -/
structure Outcome where
  /-- The exit code. -/
  code : Nat
  /-- What went to standard output. -/
  stdout : List UInt8 := []
  /-- What went to standard error. -/
  stderr : List UInt8 := []
  /-- The files. -/
  files : Files

namespace Command

/-- The version of the command. -/
def version : String := "0.1.0-dev"

/-- How the command is used. -/
def usage : String :=
  "Labo " ++ version ++ "\n\n" ++
  "Usage: labo [options] [file.labo]\n\n" ++
  "Options:\n" ++
  "  -i file   read the program from file\n" ++
  "  -o file   write program output to file\n" ++
  "  -n        skip static type checking\n" ++
  "  -t        print the token stream\n" ++
  "  -a        print the AST\n" ++
  "  -j        print the AST as JSON (with -a)\n" ++
  "  -y        print the AST with expression types\n" ++
  "  -c file   read settings from a YAML file\n" ++
  "  -r        start an interactive session\n" ++
  "  -x        trace phase timings\n" ++
  "  -v        print version\n" ++
  "  -h        print this help\n"

/-! ## What goes in -/

/-- The settings of a command: those of the settings file, if there is one, with
what the options override. -/
def settings (o : Options) (files : Files) : Except (List UInt8) Settings := do
  let s ←
    if o.config = "" then pure ({} : Settings)
    else match files.openFor o.config with
      | .error e => throw (Utf8.ofString ("config: " ++ e.message))
      | .ok entry =>
        let read := Files.contents o.config entry
        match Settings.decode read.bytes read.failure with
        | .ok s => pure s
        | .error e => throw (Utf8.ofString ("config: parse " ++ o.config ++ ": ") ++ e.message)
  return { s with
    typecheck := s.typecheck && !o.noTypecheck
    treeFormat := if o.json then .json else s.treeFormat
    trace := s.trace || o.trace }

/-- The source of the program: a file, or standard input. -/
def source (o : Options) (stdin : Delivery) (files : Files) : Except FileError Source :=
  if o.input = "" then .ok ⟨"<stdin>", stdin.bytes, stdin.failure⟩
  else match files.openFor o.input with
    | .error e => .error e
    | .ok entry =>
      let read := Files.contents o.input entry
      .ok ⟨o.input, read.bytes, read.failure⟩

/-! ## What comes out -/

/-- Where output goes. -/
inductive Dest where
  /-- To standard output. -/
  | stdout
  /-- Into the file at a place. -/
  | place (p : List String)
  deriving DecidableEq, Repr

/-- Where the output that an option names goes, if it can go there. -/
def dest (output : String) (files : Files) : Except FileError Dest :=
  if output = "" then .ok .stdout
  else match files.target output with
    | .ok p => .ok (.place p)
    | .error e => .error e

/-- The outcome of writing to a destination. -/
def Dest.deliver (d : Dest) (code : Nat) (bytes stderr : List UInt8) (files : Files) : Outcome :=
  match d with
  | .stdout => { code, stdout := bytes, stderr, files }
  | .place p => { code, stderr, files := files.put p bytes }

/-- The outcome of showing something, which is dropped where it cannot go. -/
def present (o : Options) (code : Nat) (bytes stderr : List UInt8) (files : Files) : Outcome :=
  match dest o.output files with
  | .ok d => d.deliver code bytes stderr files
  | .error _ => { code, stderr, files }

/-- The trace of the phases in a list, if there is to be one. -/
def traced (host : Host) (s : Settings) (ps : List Phase) : List UInt8 :=
  if s.trace then ps.flatMap fun p => Utf8.ofString (Trace.line host.elapsed p) else []

/-! ## Tokens and trees -/

/-- A row of the token table. -/
def tokenRow (pos token literal : String) : String :=
  padRight 20 pos ++ " " ++ padRight 8 token ++ " " ++ literal ++ "\n"

/-- The rows above the first token. -/
def tokenHead : String :=
  let rule := fun n => String.ofList (List.replicate n '-')
  tokenRow "POSITION" "TOKEN" "LITERAL" ++ tokenRow (rule 20) (rule 8) (rule 20)

/-- The rows of a stream up to its end; a failure has no row. -/
def tokenRows : TokenStream → String
  | .failed _ => ""
  | .eof p => tokenRow p.text Token.eof.text (Quoted.quote "")
  | .cons l rest =>
    tokenRow l.pos.text l.word.token.text (Quoted.quote l.word.literal) ++ tokenRows rest

/-- Show the tokens of a source. -/
def showTokens (o : Options) (s : Settings) (src : Source) (files : Files) : Outcome :=
  let table := Utf8.ofString (tokenHead ++ tokenRows src.tokens)
  match src.tokens.failure? with
  | none => present o 0 table [] files
  | some e => present o 1 table (Diagnostics.failure s.color (.lex e)) files

/-- Show the tree of a source. -/
def showTree (host : Host) (o : Options) (s : Settings) (src : Source) (files : Files) : Outcome :=
  let trace := traced host s [.parse]
  match Pipeline.parse src with
  | .error f => { code := 1, stderr := trace ++ Diagnostics.failure s.color f, files }
  | .ok p =>
    match s.treeFormat with
    | .outline =>
      present o 0 (Utf8.ofString (Outline.render (p.outline Pos.text))) trace files
    | .json =>
      match (p.toJson Pos.text).document with
      | .error e => { code := 1, stderr := trace ++ Diagnostics.fatal s.color e.message, files }
      | .ok text =>
        match dest o.output files with
        | .error e => { code := 1, stderr := trace ++ Diagnostics.fatal s.color e.message, files }
        | .ok d => d.deliver 0 (Utf8.ofString text) trace files

/-- Show the tree of a source with the types of its expressions.  It is checked
whatever the settings say. -/
def showTyped (host : Host) (o : Options) (s : Settings) (src : Source) (files : Files) :
    Outcome :=
  match Pipeline.parse src with
  | .error f =>
    { code := 1, stderr := traced host s [.parse] ++ Diagnostics.failure s.color f, files }
  | .ok p =>
    let trace := traced host s [.parse, .typecheck]
    match p.check with
    | (.error e, _) =>
      { code := 1, stderr := trace ++ Diagnostics.failure s.color (.typecheck e), files }
    | (.ok _, tree) =>
      present o 0 (Utf8.ofString (Outline.render (tree.outline Note.label))) trace files

/-! ## Runs and sessions -/

/-- Run a program. -/
def execute (host : Host) (o : Options) (s : Settings) (src : Source) (files : Files) : Outcome :=
  let checked : Except Failure (Program Pos) := do
    let p ← Pipeline.parse src
    Pipeline.check s.typecheck p
    return p
  match checked with
  | .error f =>
    { code := 1, files,
      stderr := traced host s (Trace.entered s.typecheck (.error f)) ++
        Diagnostics.failure s.color f }
  | .ok p =>
    match dest o.output files with
    | .error e =>
      { code := 1, files,
        stderr := traced host s ([.parse] ++ if s.typecheck then [.typecheck] else []) ++
          Diagnostics.fatal s.color e.message }
    | .ok d =>
      let (result, out) := Pipeline.execute .all "" p
      let trace := traced host s (Trace.entered s.typecheck result)
      match result with
      | .ok _ => d.deliver 0 (Utf8.ofString out) trace files
      | .error f =>
        d.deliver 1 (Utf8.ofString out) (trace ++ Diagnostics.failure s.color f) files

/-- The history after a line was entered, whatever it asks for.  A blank line is
not kept. -/
def remember (history : List (List UInt8)) (line : List UInt8) : List (List UInt8) :=
  if (Session.trim line).isEmpty then history else History.push history line

/-- Answer lines until there are no more or the session is over: the exit code, what
is written, and the history.  Without a failure the lines end where the input does. -/
def converse (s : Session) (history : List (List UInt8)) (failure : Option String) :
    List (List UInt8) → Nat × List UInt8 × List UInt8 × List (List UInt8)
  | [] =>
    match failure with
    | none => (0, Utf8.ofString "\n", [], history)
    | some cause => (1, [], Diagnostics.fatal s.color cause, history)
  | line :: lines =>
    let history := remember history line
    let r := s.eval line
    if r.quit then (0, r.stdout, r.stderr, history)
    else
      let (code, out, err, history) := converse r.session history failure lines
      (code, r.stdout ++ out, r.stderr ++ err, history)

/-- The first line of a session. -/
def greeting : String := "Labo " ++ version ++ ". Type :help for help.\n"

/-- The session that settings ask for. -/
def session (host : Host) (s : Settings) : Session :=
  { typecheck := s.typecheck, color := s.color,
    trace := if s.trace then some host.elapsed else none }

/-- The history that is kept in a file, which need not exist.  What can be read of it
counts. -/
def loadHistory (path : String) (files : Files) : List (List UInt8) :=
  if path = "" then []
  else match files.openFor path with
    | .ok entry => History.read (Files.contents path entry).bytes
    | .error _ => []

/-- Keep a history in a file, if that is possible. -/
def saveHistory (path : String) (history : List (List UInt8)) (files : Files) : Files :=
  if path = "" then files
  else match files.target path with
    | .ok p => files.put p (History.write history)
    | .error _ => files

/-- Hold a session over standard input. -/
def interact (host : Host) (s : Settings) (stdin : Delivery) (files : Files) : Outcome :=
  let path := History.path host.home s.historyFile
  let (code, out, err, history) :=
    converse (session host s) (loadHistory path files) stdin.failure
      ((Lines.pieces stdin.bytes).map Lines.Piece.bytes)
  { code, stdout := Utf8.ofString greeting ++ out, stderr := err,
    files := saveHistory path history files }

/-- Run the command. -/
def run (host : Host) (args : List String) (stdin : Delivery) (files : Files) : Outcome :=
  match Options.parse args with
  | .error e =>
    { code := 1, stderr := Utf8.ofString ("labo: " ++ e.message ++ "\n" ++ usage), files }
  | .ok o =>
    if o.help then { code := 0, stdout := Utf8.ofString usage, files }
    else if o.version then
      { code := 0, files,
        stdout := Utf8.ofString
          ("labo version " ++ version ++ "\ngo version " ++ host.toolchain ++ "\n") }
    else match settings o files with
      | .error m =>
        { code := 1, stderr := Utf8.ofString "labo: " ++ m ++ Utf8.ofString "\n", files }
      | .ok s =>
        if o.interactive then interact host s stdin files
        else match source o stdin files with
          | .error e => { code := 1, stderr := Diagnostics.fatal s.color e.message, files }
          | .ok src =>
            if o.tokens then showTokens o s src files
            else if o.tree then showTree host o s src files
            else if o.typedTree then showTyped host o s src files
            else execute host o s src files

end Command

end PairDict
