import PairDict.Settings.Draft

/-! # Settings

Settings can be given in a file; what the file does not mention keeps its default.
A file is decoded in two steps.  First its document is read and poured into a draft;
everything that does not fit is listed, in order.  Only if nothing was listed are the
spellings **validated**, and the first bad one is reported.
-/
namespace PairDict

/-- When diagnostics are coloured. -/
inductive Color where
  | auto | always | never
  deriving DecidableEq, Repr

/-- How a choice is written. -/
def Color.text : Color → String
  | .auto => "auto"
  | .always => "always"
  | .never => "never"

/-- The choice of a spelling. -/
def Color.ofText? (s : String) : Option Color :=
  [Color.auto, .always, .never].find? (·.text = s)

/-- How trees are shown. -/
inductive TreeFormat where
  | outline | json
  deriving DecidableEq, Repr

/-- How a format is written. -/
def TreeFormat.text : TreeFormat → String
  | .outline => "text"
  | .json => "json"

/-- The format of a spelling. -/
def TreeFormat.ofText? (s : String) : Option TreeFormat :=
  [TreeFormat.outline, .json].find? (·.text = s)

/-- What can be set. -/
structure Settings where
  /-- Whether programs are checked before they run. -/
  typecheck : Bool := true
  /-- When diagnostics are coloured. -/
  color : Color := .auto
  /-- How trees are shown. -/
  treeFormat : TreeFormat := .outline
  /-- Whether the phases of a run are timed. -/
  trace : Bool := false
  /-- Where the lines of interactive sessions are kept; nowhere if empty. -/
  historyFile : String := ".labo_history"
  deriving DecidableEq, Repr

/-- Why a settings file cannot be used. -/
inductive SettingsError where
  /-- It is no document. -/
  | invalid (p : Yaml.Problem)
  /-- Something does not fit. -/
  | misfits (complaints : List Complaint)
  /-- There is no such choice of colours. -/
  | badColor (spelling : List UInt8)
  /-- There is no such format. -/
  | badFormat (spelling : List UInt8)
  deriving DecidableEq, Repr

namespace SettingsError

/-- The error as it is reported. -/
def message : SettingsError → List UInt8
  | .invalid p => Utf8.ofString p.text
  | .misfits cs =>
    Utf8.ofString "yaml: unmarshal errors:" ++ cs.flatMap fun c => Utf8.ofString "\n  " ++ c
  | .badColor s =>
    Utf8.ofString ("invalid color " ++ Quoted.quoteBytes s ++ " (want auto, always or never)")
  | .badFormat s =>
    Utf8.ofString ("invalid ast_format " ++ Quoted.quoteBytes s ++ " (want text or json)")

end SettingsError

namespace Settings

/-- The settings that a draft spells, if every spelling is one. -/
def ofDraft (d : Draft) : Except SettingsError Settings :=
  match (Utf8.toString? d.color).bind Color.ofText? with
  | none => .error (.badColor d.color)
  | some color =>
    match (Utf8.toString? d.treeFormat).bind TreeFormat.ofText? with
    | none => .error (.badFormat d.treeFormat)
    | some treeFormat =>
      .ok ⟨d.typecheck, color, treeFormat, d.trace, Utf8.toStringLossy d.historyFile⟩

/-- The draft that a document makes.  Without a document there is nothing to pour. -/
def draft (doc : Option Yaml.Node) : Except SettingsError Draft :=
  match doc with
  | none => .ok {}
  | some n =>
    match Pour.document n with
    | .error p => .error (.invalid p)
    | .ok p => if p.complaints.isEmpty then .ok p.draft else .error (.misfits p.complaints.reverse)

/-- Decode the bytes of a settings file, of which no more could be read for the
reason `failure`, if there is one. -/
def decode (bytes : List UInt8) (failure : Option String) : Except SettingsError Settings :=
  match Yaml.Read.document (Yaml.Input.ofBytes bytes failure).tokens with
  | .error p => .error (.invalid p)
  | .ok doc => do ofDraft (← draft doc)

end Settings

end PairDict
