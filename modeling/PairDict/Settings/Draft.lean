import PairDict.Text.Quoted
import PairDict.Yaml.Tag

/-! # Drafts of settings

A document is poured into a **draft**, in which the settings stand as they are spelled.
Each entry of its mapping is assigned to the setting it names, and everything that does
not fit is a **complaint**; complaints are kept in order and nothing else is lost because
of them.  A mapping in which a key stands twice is not looked at any further.

A mapping may ask for others to be **merged** into it: what it does not mention itself is
taken from the first of them that does.  Merged mappings may merge others in turn.

Where a node is wanted an alias stands for the node with its anchor.  What aliases bring
in is counted, and a long document in which its share is too large is refused; the longer
the document, the smaller the share.
-/
namespace PairDict

/-- A setting. -/
inductive Setting where
  | typecheck | color | treeFormat | trace | historyFile
  deriving DecidableEq, Repr

namespace Setting

/-- The key of a setting. -/
def key : Setting → String
  | .typecheck => "typecheck"
  | .color => "color"
  | .treeFormat => "ast_format"
  | .trace => "trace"
  | .historyFile => "history_file"

/-- The setting of a key. -/
def ofKey? (key : List UInt8) : Option Setting :=
  [typecheck, color, treeFormat, trace, historyFile].find? (Utf8.ofString ·.key = key)

end Setting

/-- The settings as a document spells them. -/
structure Draft where
  /-- Whether programs are checked. -/
  typecheck : Bool := true
  /-- The spelling of when diagnostics are coloured. -/
  color : List UInt8 := Utf8.ofString "auto"
  /-- The spelling of how trees are shown. -/
  treeFormat : List UInt8 := Utf8.ofString "text"
  /-- Whether phases are timed. -/
  trace : Bool := false
  /-- The spelling of where lines are kept. -/
  historyFile : List UInt8 := Utf8.ofString ".labo_history"
  deriving DecidableEq, Repr

/-- What is reported of something that does not fit. -/
abbrev Complaint := List UInt8

namespace Complaint

/-- The most bytes of a scalar that are shown in full. -/
def shownBytes : Nat := 10

/-- A scalar as a complaint shows it, cut if it is long. -/
def excerpt (text : String) : List UInt8 :=
  let bs := Utf8.ofString text
  Utf8.ofString " \u0060" ++
    (if shownBytes < bs.length then bs.take 7 ++ Utf8.ofString "..." else bs) ++
    Utf8.ofString "\u0060"

/-- A node does not fit where a `target` is wanted. -/
def misfit (n : Yaml.Node) (target : String) : Complaint :=
  let text := match n with
    | .scalar _ text _ => text
    | _ => ""
  let shown :=
    if n.tag = .seq || n.tag = .map then Utf8.ofString text else excerpt text
  Utf8.ofString ("line " ++ toString n.line ++ ": cannot unmarshal " ++ n.tag.text) ++ shown ++
    Utf8.ofString (" into " ++ target)

/-- What the settings are called. -/
def settingsName : String := "config.Config"

/-- A key names no setting. -/
def unknown (line : Nat) (key : List UInt8) : Complaint :=
  Utf8.ofString ("line " ++ toString line ++ ": field ") ++ key ++
    Utf8.ofString (" not found in type " ++ settingsName)

/-- A key names a setting that was set before. -/
def again (line : Nat) (key : List UInt8) : Complaint :=
  Utf8.ofString ("line " ++ toString line ++ ": field ") ++ key ++
    Utf8.ofString (" already set in type " ++ settingsName)

/-- Whether two keys are the same as they stand: scalars of one text, aliases of one
name, or collections of one kind. -/
def isSame : Yaml.Node → Yaml.Node → Bool
  | .scalar _ a _, .scalar _ b _ => a = b
  | .seq _ _, .seq _ _ => true
  | .map _ _, .map _ _ => true
  | .reference _ a _, .reference _ b _ => a = b
  | _, _ => false

/-- How a key is written. -/
def keyText : Yaml.Node → String
  | .scalar _ text _ => text
  | .reference _ name _ => name
  | _ => ""

/-- Every key that stands again after it stood. -/
def repeated : List Yaml.Node → List Complaint
  | [] => []
  | k :: ks =>
    (ks.filter (isSame k ·)).map (fun k' =>
      Utf8.ofString ("line " ++ toString k'.line ++ ": mapping key " ++
        Quoted.quote (keyText k') ++ " already defined at line " ++ toString k.line)) ++
      repeated ks

end Complaint

/-! ## Nodes as values -/

/-- What a node is where a `β` is wanted. -/
inductive Fit (β : Type) where
  /-- A value. -/
  | value (v : β)
  /-- Nothing, so that things stay as they are. -/
  | nothing
  /-- Something else. -/
  | misfit (complaints : List Complaint)

namespace Fit

/-- What a node is that is no scalar. -/
def collection {β : Type} (n : Yaml.Node) (target : String) : Fit β :=
  match n with
  | .map _ content =>
    match Complaint.repeated ((Yaml.Node.entries content).map Prod.fst) with
    | [] => .misfit [Complaint.misfit n target]
    | cs => .misfit cs
  | _ => .misfit [Complaint.misfit n target]

/-- What a node is where a truth value is wanted. -/
def bool (n : Yaml.Node) : Except Yaml.Problem (Fit Bool) :=
  match n with
  | .scalar _ text _ => do
    match ← Yaml.worth n.tag text with
    | .null => return .nothing
    | .bool b => return .value b
    | .text bytes =>
      match (Utf8.toString? bytes).bind (Yaml.Tag.wishes.lookup ·) with
      | some b => return .value b
      | none => return .misfit [Complaint.misfit n "bool"]
    | .number => return .misfit [Complaint.misfit n "bool"]
  | _ => return collection n "bool"

/-- What a node is where a text is wanted.  A scalar that does not look like one is
taken as it is written. -/
def text (n : Yaml.Node) : Except Yaml.Problem (Fit (List UInt8)) :=
  match n with
  | .scalar _ text _ => do
    match ← Yaml.worth n.tag text with
    | .null => return .nothing
    | .text bytes => return .value bytes
    | .bool _ | .number => return .value (Utf8.ofString text)
  | _ => return collection n "string"

end Fit

/-! ## Pouring -/

/-- What was poured so far. -/
structure Pour where
  /-- The draft. -/
  draft : Draft := {}
  /-- The complaints, the last one first. -/
  complaints : List Complaint := []
  /-- Inside a merge, the keys that are taken. -/
  taken : Option (List (List UInt8)) := none
  /-- The number of nodes that were looked at. -/
  nodes : Nat := 0
  /-- How many of them stand in an alias. -/
  aliased : Nat := 0
  deriving DecidableEq, Repr

namespace Pour

/-- With more complaints. -/
def complain (p : Pour) (cs : List Complaint) : Pour :=
  { p with complaints := cs.reverse ++ p.complaints }

/-- The share of the nodes that may stand in an alias.  It falls from nearly all, for a
document that is not long, to a tenth, for a very long one. -/
def aliasShare (nodes : Nat) : Float :=
  if nodes ≤ 400000 then 0.99
  else if 4000000 ≤ nodes then 0.10
  else 0.99 - 0.89 * ((nodes - 400000).toFloat / 3600000)

/-- Count a node. -/
def count (p : Pour) (aliased : Bool) : Except Yaml.Problem Pour :=
  let p := { p with nodes := p.nodes + 1, aliased := p.aliased + if aliased then 1 else 0 }
  if 1000 < p.nodes ∧ 100 < p.aliased ∧
      aliasShare p.nodes < p.aliased.toFloat / p.nodes.toFloat then
    .error ⟨.tooManyAliases, 0⟩
  else .ok p

/-- Look at a node in a document: the node that is meant. -/
def look (root : Yaml.Node) (aliased : Bool) (n : Yaml.Node) (p : Pour) :
    Except Yaml.Problem (Yaml.Node × Pour) := do
  let p ← p.count aliased
  match n with
  | .reference _ _ target => return ((root.find? target).getD n, ← p.count true)
  | n => return (n, p)

/-- Assign a node to a setting. -/
def assign (p : Pour) (s : Setting) (n : Yaml.Node) : Except Yaml.Problem Pour := do
  let put {β : Type} (fit : Fit β) (set : β → Draft) : Pour :=
    match fit with
    | .value v => { p with draft := set v }
    | .nothing => p
    | .misfit cs => p.complain cs
  match s with
  | .typecheck => return put (← Fit.bool n) fun b => { p.draft with typecheck := b }
  | .color => return put (← Fit.text n) fun t => { p.draft with color := t }
  | .treeFormat => return put (← Fit.text n) fun t => { p.draft with treeFormat := t }
  | .trace => return put (← Fit.bool n) fun b => { p.draft with trace := b }
  | .historyFile => return put (← Fit.text n) fun t => { p.draft with historyFile := t }

/-- Take a key, unless it is taken. -/
def take? (p : Pour) (key : List UInt8) : Option Pour :=
  match p.taken with
  | none => some p
  | some keys => if keys.contains key then none else some { p with taken := some (key :: keys) }

/-- Whether a key asks for a merge. -/
def isMerge : Yaml.Node → Bool
  | .scalar place text quoted => text = "<<" && place.scalarTag text quoted = .merge
  | _ => false

/-- Assign the entries of a mapping in order, of which those that set the settings `done`
were seen. -/
def entries (root : Yaml.Node) (aliased : Bool) (done : List Setting) (p : Pour) :
    List (Yaml.Node × Yaml.Node) → Except Yaml.Problem Pour
  | [] => .ok p
  | (k, v) :: es => do
    if isMerge k then entries root aliased done p es
    else
      let (key, p) ← p.look root aliased k
      match ← Fit.text key with
      | .misfit cs => entries root aliased done (p.complain cs) es
      | .nothing => entries root aliased done p es
      | .value name =>
        match p.take? name with
        | none => entries root aliased done p es
        | some p =>
          match Setting.ofKey? name with
          | none => entries root aliased done (p.complain [.unknown k.line name]) es
          | some s =>
            if done.contains s then
              entries root aliased done (p.complain [.again k.line name]) es
            else
              let (value, p) ← p.look root aliased v
              entries root aliased (s :: done) (← p.assign s value) es

/-- Inside no merge, take the keys of a mapping that stand for texts. -/
def takeKeys (root : Yaml.Node) (aliased : Bool) (p : Pour) (keys : List Yaml.Node) :
    Except Yaml.Problem Pour :=
  match p.taken with
  | some _ => .ok p
  | none => keys.foldlM (fun p k => do
      let (key, p) ← p.look root aliased k
      match key with
      | .scalar _ text _ =>
        match ← Yaml.worth key.tag text with
        | .text bytes => return (p.take? bytes).getD p
        | _ => return p
      | _ => return p) { p with taken := some [] }

/-- The nodes that a merge is of. -/
def parts : Yaml.Node → List Yaml.Node
  | .seq _ items => items
  | n => [n]

/-- Pour a mapping of a document.  The aliases of the anchors `active` lead to it, and
merges are followed `fuel` times. -/
def mapping (root : Yaml.Node) :
    Nat → List Nat → List Yaml.Node → Pour → Except Yaml.Problem Pour
  | 0, _, _, p => .ok p
  | fuel + 1, active, content, p => do
    let es := Yaml.Node.entries content
    let keys := es.map Prod.fst
    let aliased := !active.isEmpty
    match Complaint.repeated keys with
    | c :: cs => return p.complain (c :: cs)
    | [] =>
      let p ← p.entries root aliased [] es
      match es.reverse.find? (isMerge ·.1) with
      | none => return p
      | some (_, merged) =>
        (parts merged).foldlM (fun p part => do
          match part with
          | .map _ content => mapping root fuel active content (← p.count aliased)
          | .reference _ name target =>
            match root.find? target with
            | some (.map _ content) =>
              let p ← p.count aliased
              if active.contains target then throw ⟨.holdsItself name, 0⟩
              else mapping root fuel (target :: active) content (← p.count true)
            | _ => throw ⟨.badMerge, 0⟩
          | _ => throw ⟨.badMerge, 0⟩) (← p.takeKeys root aliased keys)

/-- Pour a document.  A merge leads into a mapping, or from there to one that no alias led
to before, so that there are fewer than the square of the number of nodes in a row. -/
def document (root : Yaml.Node) : Except Yaml.Problem Pour := do
  let p ← (← ({} : Pour).count false).count false
  match root with
  | .map _ content => mapping root (root.size * root.size) [] content p
  | .scalar _ text _ =>
    match ← Yaml.worth root.tag text with
    | .null => return p
    | _ => return p.complain [.misfit root Complaint.settingsName]
  | _ => return p.complain [.misfit root Complaint.settingsName]

end Pour

end PairDict
