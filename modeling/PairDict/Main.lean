import PairDict.Command
import PairDict.Command.Duration

/-! # The program

The outer layer: it takes a picture of the files that a command line mentions, runs
the command on the picture, and then writes what the command left behind.  A session
is held line by line, so that answers appear as the lines are entered.
-/
namespace PairDict.Main

/-- Write bytes to a stream. -/
def put (stream : IO.FS.Stream) (bytes : List UInt8) : IO Unit := do
  stream.write ⟨bytes.toArray⟩
  stream.flush

/-- The path of a place. -/
def pathOf (place : List String) : String := "/" ++ "/".intercalate place.reverse

/-- The places on the way along some names. -/
def placesAlong (place : List String) : List String → List (List String)
  | [] => [place]
  | name :: rest =>
    if name = "" || name = "." then placesAlong place rest
    else if name = ".." then place :: placesAlong place.tail rest
    else place :: placesAlong (name :: place) rest

/-- Read pieces up to the one after which to stop, or until there are no more, or until
reading fails. -/
partial def drain (read : IO ByteArray) (stop : List UInt8 → Bool) : IO Delivery := do
  try
    let piece := (← read).toList
    if piece = [] || stop piece then return ⟨piece, none⟩
    let rest ← drain read stop
    return ⟨piece ++ rest.bytes, rest.failure⟩
  catch e => return ⟨[], some (toString e)⟩

/-- What stands at a place. -/
def look (place : List String) : IO (Option Entry) := do
  let path := (← IO.currentDir) / pathOf place
  if ← path.isDir then return some .dir
  if ← path.pathExists then
    let handle ← IO.FS.Handle.mk path .read
    let d ← drain (handle.read 65536) fun _ => false
    return some (.file d.bytes (d.failure.map fun _ => .faulty))
  return none

/-- A picture of what some paths lead to. -/
def picture (current : List String) (paths : List String) : IO Files := do
  let places := paths.flatMap fun p =>
    placesAlong (if Path.isAbsolute p then [] else current) (Path.names p)
  let mut entries := []
  for place in places.eraseDups do
    if let some e ← look place then entries := (place, e) :: entries
  return { current, entries }

/-- Write the files that changed between two pictures. -/
def commit (before after : Files) : IO Unit := do
  for (place, e) in after.entries do
    if let .file bytes _ := e then
      if before.entry? place ≠ some e then
        IO.FS.writeBinFile ((← IO.currentDir) / pathOf place) ⟨bytes.toArray⟩

/-- Run a computation and say how many nanoseconds it took. -/
def timed {β : Type} (f : Unit → β) : IO (β × Nat) := do
  let start ← IO.monoNanosNow
  let x ← IO.lazyPure f
  return (x, (← IO.monoNanosNow) - start)

/-- How long the phases of a program take. -/
def rehearse (src : Source) : IO (Phase → String) := do
  let (parsed, parseTime) ← timed fun _ => Pipeline.parse src
  match parsed with
  | .error _ => return fun _ => Duration.text parseTime
  | .ok p =>
    let (_, checkTime) ← timed fun _ => Pipeline.check true p
    let (_, runTime) ← timed fun _ => Pipeline.execute .all "" p
    return fun
      | .lex | .parse => Duration.text parseTime
      | .typecheck => Duration.text checkTime
      | .execute => Duration.text runTime

/-- Read a line with its end, as far as it can be read. -/
def readLine (stream : IO.FS.Stream) : IO Delivery := drain (stream.read 1) (· = [10])

/-- Answer the pieces of a line: the session and its history afterwards, and
whether it is over. -/
def answer (s : Session) (history : List (List UInt8)) :
    List Lines.Piece → IO (Session × List (List UInt8) × Bool)
  | [] => return (s, history, false)
  | piece :: rest => do
    let reply := s.eval piece.bytes
    let history := Command.remember history piece.bytes
    put (← IO.getStdout) reply.stdout
    put (← IO.getStderr) reply.stderr
    if reply.quit then return (reply.session, history, true)
    answer reply.session history rest

/-- Read the lines of a session and answer them; the exit code, and the history
afterwards. -/
partial def converse (s : Session) (history : List (List UInt8)) :
    IO (Nat × List (List UInt8)) := do
  let stdin ← IO.getStdin
  let stdout ← IO.getStdout
  if ← stdin.isTty then put stdout (Utf8.ofString "labo> ")
  match ← readLine stdin with
  | ⟨[], failure⟩ =>
    let (code, out, err, history) := Command.converse s history failure []
    put stdout out
    put (← IO.getStderr) err
    return (code, history)
  | ⟨line, _⟩ =>
    let (s, history, ended) ← answer s history (Lines.pieces line)
    if ended then return (0, history)
    converse s history

/-- Hold a session. -/
def interact (host : Host) (s : Settings) (files : Files) : IO UInt32 := do
  put (← IO.getStdout) (Utf8.ofString Command.greeting)
  let path := History.path host.home s.historyFile
  let (code, history) ← converse (Command.session host s) (Command.loadHistory path files)
  commit files (Command.saveHistory path history files)
  return code.toUInt32

/-- What standard input gives, if the program comes from there. -/
def input (o : Options) : IO Delivery := do
  if o.input ≠ "" || o.help || o.version then return ⟨[], none⟩
  let stdin ← IO.getStdin
  drain (stdin.read 65536) fun _ => false

/-- Run a command on a picture of the files, and write what it leaves behind. -/
def perform (host : Host) (args : List String) (stdin : Delivery) (files : Files) :
    IO UInt32 := do
  let r := Command.run host args stdin files
  put (← IO.getStdout) r.stdout
  put (← IO.getStderr) r.stderr
  commit files r.files
  return r.code.toUInt32

end PairDict.Main

open PairDict PairDict.Main in
/-- Run the command that the arguments ask for. -/
def main (args : List String) : IO UInt32 := do
  let home ← IO.getEnv "HOME"
  let host : Host := { home, toolchain := "unknown", elapsed := fun _ => Duration.text 0 }
  let current := ((Path.names (← IO.currentDir).toString).filter (· ≠ "")).reverse
  let .ok o := Options.parse args | perform host args ⟨[], none⟩ { current, entries := [] }
  let paths := [o.input, o.output, o.config].filter (· ≠ "")
  let files ← picture current paths
  let .ok s := Command.settings o files | perform host args ⟨[], none⟩ files
  let history := History.path home s.historyFile
  let files ← picture current (paths ++ [history].filter (· ≠ ""))
  if o.interactive && !o.help && !o.version then interact host s files
  else
    let stdin ← input o
    let elapsed ← match Command.source o stdin files with
      | .ok src => if s.trace then rehearse src else pure host.elapsed
      | .error _ => pure host.elapsed
    perform { host with elapsed } args stdin files
