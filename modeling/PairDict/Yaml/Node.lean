import PairDict.Yaml.Scan

/-! # Nodes

A document is a **node**: a scalar, a list of nodes, a mapping of nodes to nodes, or an
**alias**, which stands for an earlier node that has an anchor.  A node may stand
inside the node that its alias stands for.

Nodes are read off a stream by recursive descent, one token at a time.  Where a node
may be left out it is an empty scalar.  What reads something returns a shorter
stream, which is why it comes to an end.
-/
namespace PairDict.Yaml

/-- What every node has. -/
structure Place where
  /-- The line, the first one being 1. -/
  line : Nat
  /-- The tag, if one is given. -/
  tag : Option String := none
  /-- The number of the anchor, if there is one. -/
  anchor : Option Nat := none
  deriving DecidableEq, Repr

/-- A node. -/
inductive Node where
  /-- A scalar. -/
  | scalar (place : Place) (text : String) (quoted : Bool)
  /-- A list. -/
  | seq (place : Place) (items : List Node)
  /-- A mapping: keys and values in turn. -/
  | map (place : Place) (content : List Node)
  /-- An alias of the node whose anchor has the number `target`. -/
  | reference (line : Nat) (name : String) (target : Nat)

namespace Node

/-- The empty scalar on a line, counted from zero. -/
def empty (line : Nat) : Node := .scalar ⟨line + 1, none, none⟩ "" false

/-- The line, the first one being 1. -/
def line : Node → Nat
  | .scalar p _ _ | .seq p _ | .map p _ => p.line
  | .reference line _ _ => line

/-- The anchor. -/
def anchor : Node → Option Nat
  | .scalar p _ _ | .seq p _ | .map p _ => p.anchor
  | .reference _ _ _ => none

end Node

mutual

/-- The node inside a node whose anchor has a number. -/
def Node.find? (n : Nat) : Node → Option Node
  | .scalar p t q => if p.anchor = some n then some (.scalar p t q) else none
  | .seq p ns => if p.anchor = some n then some (.seq p ns) else Node.findIn? n ns
  | .map p ns => if p.anchor = some n then some (.map p ns) else Node.findIn? n ns
  | .reference _ _ _ => none

/-- The node inside one of some nodes whose anchor has a number. -/
def Node.findIn? (n : Nat) : List Node → Option Node
  | [] => none
  | x :: xs => (x.find? n).or (Node.findIn? n xs)

end

mutual

/-- The number of nodes of a node. -/
def Node.size : Node → Nat
  | .scalar _ _ _ | .reference _ _ _ => 1
  | .seq _ ns | .map _ ns => Node.sizeIn ns + 1

/-- The number of nodes of some nodes. -/
def Node.sizeIn : List Node → Nat
  | [] => 0
  | x :: xs => x.size + Node.sizeIn xs

end

/-- The keys of a mapping with their values. -/
def Node.entries : List Node → List (Node × Node)
  | k :: v :: ns => (k, v) :: entries ns
  | _ => []

/-! ## Reading nodes -/

namespace Stream

@[simp] theorem length_cons (i : Item) (s : Stream) : (cons i s).length = s.length + 1 := rfl

/-- The token at the front, if there is one. -/
def token? : Stream → Option Token
  | .cons i _ => some i.token
  | _ => none

end Stream

/-- Something read off the front of a stream: what it is, and a rest of fewer than `n`
tokens. -/
structure Read (β : Type) (n : Nat) where
  /-- What was read. -/
  value : β
  /-- The stream after it. -/
  rest : Stream
  /-- The rest is short. -/
  lt : rest.length < n

namespace Read

/-- The outcome of reading a `β`. -/
abbrev Result (β : Type) (n : Nat) := Except Problem (Read β n)

/-- What handles stand for. -/
abbrev Handles := List (String × String)

/-- What handles stand for where nothing else is said. -/
def defaultHandles : Handles := [("!", "!"), ("!!", "tag:yaml.org,2002:")]

/-- The problem at the front of a stream, of a node that was begun on a line. -/
def reject {β : Type} (cause : Cause) (begun : Option Nat) : Stream → Except Problem β
  | .failed p => .error p
  | .ended line => .error (.ofNode cause (begun.getD line) line)
  | .cons i _ => .error (.ofNode cause (begun.getD i.line) i.line)

/-- The line at the front of a stream, if it can be read. -/
def lineOf : Stream → Except Problem Nat
  | .failed p => .error p
  | .ended line => .ok line
  | .cons i _ => .ok i.line

/-- What stands before the content of a node. -/
structure Properties (n : Nat) where
  /-- The anchor. -/
  anchor : Option Nat
  /-- The tag and its line. -/
  tag : Option (TagName × Nat)
  /-- The stream after them. -/
  rest : Stream
  /-- The rest is not longer. -/
  le : rest.length ≤ n

/-- Read the anchor and the tag of a node, in either order. -/
def properties (s : Stream) : Properties s.length :=
  match s with
  | .cons ⟨.anchor a, _⟩ (.cons ⟨.tag t, line⟩ rest) =>
    ⟨some a, some (t, line), rest, by simp only [Stream.length_cons]; omega⟩
  | .cons ⟨.tag t, line⟩ (.cons ⟨.anchor a, _⟩ rest) =>
    ⟨some a, some (t, line), rest, by simp only [Stream.length_cons]; omega⟩
  | .cons ⟨.anchor a, _⟩ rest => ⟨some a, none, rest, by simp only [Stream.length_cons]; omega⟩
  | .cons ⟨.tag t, line⟩ rest =>
    ⟨none, some (t, line), rest, by simp only [Stream.length_cons]; omega⟩
  | s => ⟨none, none, s, Nat.le_refl _⟩

/-- The tag that a name stands for. -/
def resolveTag (handles : Handles) (begun : Nat) (t : TagName × Nat) : Except Problem String :=
  if t.1.handle = "" then .ok t.1.suffix
  else match handles.lookup t.1.handle with
    | some uri => .ok (uri ++ t.1.suffix)
    | none => .error (.ofNode .unknownHandle begun t.2)

/-- Whether a token cannot start a node where a mapping in a block goes on. -/
def endsBlockNode : Option Token → Bool
  | some .key | some .value | some .blockEnd => true
  | _ => false

mutual

/-- Read a node.  `block` allows blocks, and `flat` allows a list that is not indented
further than the mapping it is a value of. -/
def node (hs : Handles) (block flat : Bool) (s : Stream) : Result Node s.length :=
  match s with
  | .failed p => .error p
  | .cons ⟨.reference name target, line⟩ rest =>
    match target with
    | some n => .ok ⟨.reference (line + 1) name n, rest, by simp only [Stream.length_cons]; omega⟩
    | none => .error ⟨.unknownAnchor name, 0⟩
  | s => do
    let begun ← lineOf s
    let ⟨anchor, tag?, s', hle⟩ := properties s
    let _ ← lineOf s'
    let tag ← match tag? with
      | none => pure none
      | some t => some <$> resolveTag hs begun t
    let place : Place := ⟨begun + 1, tag, anchor⟩
    match s', hle with
    | .cons ⟨.scalar text quoted, _⟩ rest, hle =>
      return ⟨.scalar place text quoted, rest, by simp only [Stream.length_cons] at hle; omega⟩
    | .cons ⟨.openSeq, line⟩ rest, hle => do
      have : rest.length < s.length := by simp only [Stream.length_cons] at hle; omega
      let ⟨items, rest', h⟩ ← flowItems hs line true rest
      return ⟨.seq place items, rest', by omega⟩
    | .cons ⟨.openMap, line⟩ rest, hle => do
      have : rest.length < s.length := by simp only [Stream.length_cons] at hle; omega
      let ⟨content, rest', h⟩ ← flowPairs hs line true rest
      return ⟨.map place content, rest', by omega⟩
    | .cons ⟨.entry, line⟩ rest, hle =>
      if flat then do
        have : rest.length < s.length := by simp only [Stream.length_cons] at hle; omega
        let ⟨first, rest', h⟩ ← flatItem hs line rest
        let ⟨more, rest'', h'⟩ ← flatItems hs rest'
        return ⟨.seq place (first :: more), rest'', by omega⟩
      else if hlt : (Stream.cons ⟨.entry, line⟩ rest).length < s.length then
        return ⟨.scalar place "" false, .cons ⟨.entry, line⟩ rest, hlt⟩
      else reject .noContent (some begun) (.cons ⟨.entry, line⟩ rest)
    | .cons ⟨.blockSeq, line⟩ rest, hle =>
      if block then do
        have : rest.length < s.length := by simp only [Stream.length_cons] at hle; omega
        let ⟨items, rest', h⟩ ← blockItems hs line rest
        return ⟨.seq place items, rest', by omega⟩
      else reject .noContent (some begun) (.cons ⟨.blockSeq, line⟩ rest)
    | .cons ⟨.blockMap, line⟩ rest, hle =>
      if block then do
        have : rest.length < s.length := by simp only [Stream.length_cons] at hle; omega
        let ⟨content, rest', h⟩ ← blockPairs hs line rest
        return ⟨.map place content, rest', by omega⟩
      else reject .noContent (some begun) (.cons ⟨.blockMap, line⟩ rest)
    | s', _ =>
      if hlt : s'.length < s.length then return ⟨.scalar place "" false, s', hlt⟩
      else reject .noContent (some begun) s'
termination_by (s.length, 1)

/-- Read the elements of a list in a block that was begun on a line. -/
def blockItems (hs : Handles) (begun : Nat) (s : Stream) : Result (List Node) s.length :=
  match s with
  | .cons ⟨.entry, line⟩ rest =>
    match rest.token? with
    | some .entry | some .blockEnd => do
      let ⟨more, rest', h⟩ ← blockItems hs begun rest
      return ⟨.empty line :: more, rest', by simp only [Stream.length_cons]; omega⟩
    | _ => do
      let ⟨x, rest', h⟩ ← node hs true false rest
      let ⟨more, rest'', h'⟩ ← blockItems hs begun rest'
      return ⟨x :: more, rest'', by simp only [Stream.length_cons]; omega⟩
  | .cons ⟨.blockEnd, _⟩ rest => return ⟨[], rest, by simp only [Stream.length_cons]; omega⟩
  | s => reject .noListEntry (some begun) s
termination_by (s.length, 0)

/-- Read an element of a list that is not indented, after its `-`. -/
def flatItem (hs : Handles) (line : Nat) (s : Stream) : Result Node (s.length + 1) :=
  if s.token? = some .entry || endsBlockNode s.token? then
    return ⟨.empty line, s, by omega⟩
  else do
    let ⟨x, rest, h⟩ ← node hs true false s
    return ⟨x, rest, by omega⟩
termination_by (s.length, 2)

/-- Read the other elements of a list that is not indented. -/
def flatItems (hs : Handles) (s : Stream) : Result (List Node) (s.length + 1) :=
  match s with
  | .cons ⟨.entry, line⟩ rest => do
    let ⟨x, rest', h⟩ ← flatItem hs line rest
    let ⟨more, rest'', h'⟩ ← flatItems hs rest'
    return ⟨x :: more, rest'', by simp only [Stream.length_cons]; omega⟩
  | .failed p => .error p
  | s => return ⟨[], s, by omega⟩
termination_by (s.length, 0)

/-- Read a node of a mapping in a block, which may be left out. -/
def blockNode (hs : Handles) (line : Nat) (s : Stream) : Result Node (s.length + 1) :=
  if endsBlockNode s.token? then return ⟨.empty line, s, by omega⟩
  else do
    let ⟨x, rest, h⟩ ← node hs true true s
    return ⟨x, rest, by omega⟩
termination_by (s.length, 2)

/-- Read the keys and values of a mapping in a block that was begun on a line. -/
def blockPairs (hs : Handles) (begun : Nat) (s : Stream) : Result (List Node) s.length :=
  match s with
  | .cons ⟨.key, line⟩ rest => do
    let ⟨k, rest', h⟩ ← blockNode hs line rest
    match rest', h with
    | .cons ⟨.value, line⟩ rest'', h => do
      have : rest''.length < rest.length + 1 := by simp only [Stream.length_cons] at h; omega
      let ⟨v, rest₃, h₃⟩ ← blockNode hs line rest''
      let ⟨more, rest₄, h₄⟩ ← blockPairs hs begun rest₃
      return ⟨k :: v :: more, rest₄, by simp only [Stream.length_cons]; omega⟩
    | rest', h => do
      let line ← lineOf rest'
      let ⟨more, rest'', h'⟩ ← blockPairs hs begun rest'
      return ⟨k :: .empty line :: more, rest'', by simp only [Stream.length_cons]; omega⟩
  | .cons ⟨.blockEnd, _⟩ rest => return ⟨[], rest, by simp only [Stream.length_cons]; omega⟩
  | s => reject .noMapKey (some begun) s
termination_by (s.length, 0)

/-- Read the elements of a list in brackets that were opened on a line; before the
first one there is no comma. -/
def flowItems (hs : Handles) (begun : Nat) (first : Bool) (s : Stream) :
    Result (List Node) s.length :=
  match s with
  | .cons ⟨.closeSeq, _⟩ rest => return ⟨[], rest, by simp only [Stream.length_cons]; omega⟩
  | .cons ⟨.comma, line⟩ rest =>
    if first then reject .noContent (some line) s
    else do
      let ⟨items, rest', h⟩ ← flowItem hs begun rest
      return ⟨items, rest', by simp only [Stream.length_cons]; omega⟩
  | s => if first then flowItem hs begun s else reject .noSeqComma (some begun) s
termination_by (s.length, 3)

/-- Read an element of a list in brackets and those after it. -/
def flowItem (hs : Handles) (begun : Nat) (s : Stream) : Result (List Node) s.length :=
  match s with
  | .cons ⟨.closeSeq, _⟩ rest => return ⟨[], rest, by simp only [Stream.length_cons]; omega⟩
  | .cons ⟨.key, line⟩ rest => do
    let ⟨k, rest', h⟩ ← flowKey hs line rest
    let ⟨v, rest'', h'⟩ ← flowValue hs .closeSeq rest'
    let ⟨more, rest₃, h₃⟩ ← flowItems hs begun false rest''
    return ⟨.map ⟨line + 1, none, none⟩ [k, v] :: more, rest₃,
      by simp only [Stream.length_cons]; omega⟩
  | s => do
    let ⟨x, rest, h⟩ ← node hs false false s
    let ⟨more, rest', h'⟩ ← flowItems hs begun false rest
    return ⟨x :: more, rest', by omega⟩
termination_by (s.length, 2)

/-- Read the key of a single entry in brackets.  If it is left out, the token in its
place is passed over. -/
def flowKey (hs : Handles) (line : Nat) (s : Stream) : Result Node (s.length + 1) :=
  match s with
  | .cons ⟨.value, _⟩ rest | .cons ⟨.comma, _⟩ rest | .cons ⟨.closeSeq, _⟩ rest =>
    return ⟨.empty line, rest, by simp only [Stream.length_cons]; omega⟩
  | s => do
    let ⟨x, rest, h⟩ ← node hs false false s
    return ⟨x, rest, by omega⟩
termination_by (s.length, 2)

/-- Read the value of an entry in brackets or braces that `close` closes; it may be
left out. -/
def flowValue (hs : Handles) (close : Token) (s : Stream) : Result Node (s.length + 1) :=
  match s with
  | .cons ⟨.value, line⟩ rest =>
    if rest.token? = some .comma || rest.token? = some close then
      return ⟨.empty line, rest, by simp only [Stream.length_cons]; omega⟩
    else do
      let ⟨x, rest', h⟩ ← node hs false false rest
      return ⟨x, rest', by simp only [Stream.length_cons]; omega⟩
  | s => do
    let line ← lineOf s
    return ⟨.empty line, s, by omega⟩
termination_by (s.length, 2)

/-- Read the keys and values of a mapping in braces that were opened on a line; before
the first key there is no comma. -/
def flowPairs (hs : Handles) (begun : Nat) (first : Bool) (s : Stream) :
    Result (List Node) s.length :=
  match s with
  | .cons ⟨.closeMap, _⟩ rest => return ⟨[], rest, by simp only [Stream.length_cons]; omega⟩
  | .cons ⟨.comma, line⟩ rest =>
    if first then reject .noContent (some line) s
    else do
      let ⟨content, rest', h⟩ ← flowPair hs begun rest
      return ⟨content, rest', by simp only [Stream.length_cons]; omega⟩
  | s => if first then flowPair hs begun s else reject .noMapComma (some begun) s
termination_by (s.length, 3)

/-- Read a key in braces with its value, and those after it. -/
def flowPair (hs : Handles) (begun : Nat) (s : Stream) : Result (List Node) s.length :=
  match s with
  | .cons ⟨.closeMap, _⟩ rest => return ⟨[], rest, by simp only [Stream.length_cons]; omega⟩
  | .cons ⟨.key, line⟩ rest =>
    match rest.token? with
    | some .value | some .comma | some .closeMap => do
      let ⟨v, rest', h⟩ ← flowValue hs .closeMap rest
      let ⟨more, rest'', h'⟩ ← flowPairs hs begun false rest'
      return ⟨.empty line :: v :: more, rest'', by simp only [Stream.length_cons]; omega⟩
    | _ => do
      let ⟨k, rest', h⟩ ← node hs false false rest
      let ⟨v, rest'', h'⟩ ← flowValue hs .closeMap rest'
      let ⟨more, rest₃, h₃⟩ ← flowPairs hs begun false rest''
      return ⟨k :: v :: more, rest₃, by simp only [Stream.length_cons]; omega⟩
  | s => do
    let ⟨k, rest, h⟩ ← node hs false false s
    let line ← lineOf rest
    let ⟨more, rest', h'⟩ ← flowPairs hs begun false rest
    return ⟨k :: .empty line :: more, rest', by omega⟩
termination_by (s.length, 2)

end

/-! ## Documents -/

/-- Read the directives before a document: what handles stand for, and what follows.
`seen` says that a version was named. -/
def directives (seen : Bool) (hs : Handles) : Stream → Except Problem (Handles × Stream)
  | .cons ⟨.version major minor, line⟩ rest =>
    if seen then .error (.ofNode .secondVersion 0 line)
    else if major = 1 && minor = 1 then directives true hs rest
    else .error (.ofNode .otherVersion 0 line)
  | .cons ⟨.handle name uri, line⟩ rest =>
    if (hs.lookup name).isSome then .error (.ofNode .secondHandle 0 line)
    else directives seen (hs ++ [(name, uri)]) rest
  | s => .ok (hs, s)

/-- Read the content of a document, which may be left out. -/
def content (hs : Handles) (s : Stream) : Except Problem (Node × Stream) :=
  match s with
  | .cons ⟨.version _ _, line⟩ _ | .cons ⟨.handle _ _, line⟩ _ | .cons ⟨.documentStart, line⟩ _
  | .cons ⟨.documentEnd, line⟩ _ | .ended line => .ok (.empty line, s)
  | s => do
    let r ← node hs true false s
    return (r.value, r.rest)

/-- Read the first document of a stream; none if it has none. -/
def document (s : Stream) : Except Problem (Option Node) :=
  match s with
  | .failed p => .error p
  | .ended _ => .ok none
  | .cons ⟨.version _ _, _⟩ _ | .cons ⟨.handle _ _, _⟩ _ | .cons ⟨.documentStart, _⟩ _ => do
    let (hs, rest) ← directives false [] s
    match rest with
    | .cons ⟨.documentStart, _⟩ rest =>
      let (n, rest) ← content (hs ++ defaultHandles) rest
      let _ ← lineOf rest
      return some n
    | rest => reject .noDocumentStart (some 0) rest
  | s => do
    let ⟨n, rest, _⟩ ← node defaultHandles true false s
    let _ ← lineOf rest
    return some n

end Read

end PairDict.Yaml
