import PairDict.Yaml.Problem

/-! # Tokens of a document

A document is a row of **tokens**.  Most of them are spelled: brackets, commas,
indicators, scalars.  Those that open and close blocks are not spelled but follow
from the indentation of the lines.

A **stream** is tokens and one of two ends: the end of the text, or the problem that
keeps the rest of it from being read.
-/
namespace PairDict.Yaml

/-- A place in the text, counted from zero. -/
structure Mark where
  /-- The number of characters before it. -/
  index : Nat := 0
  /-- The number of lines before it. -/
  line : Nat := 0
  /-- The number of characters before it on its line. -/
  column : Nat := 0
  deriving DecidableEq, Repr

/-- A tag as it is spelled: a handle and what follows it. -/
structure TagName where
  /-- The handle; empty if the rest is the whole tag. -/
  handle : String
  /-- What follows the handle. -/
  suffix : String
  deriving DecidableEq, Repr

/-- A token. -/
inductive Token where
  /-- The version that a document is written in. -/
  | version (major minor : Nat)
  /-- What a handle stands for. -/
  | handle (name uri : String)
  /-- `---`. -/
  | documentStart
  /-- `...`. -/
  | documentEnd
  /-- The start of a list in a block. -/
  | blockSeq
  /-- The start of a mapping in a block. -/
  | blockMap
  /-- The end of a block. -/
  | blockEnd
  /-- An opening bracket. -/
  | openSeq
  /-- A closing bracket. -/
  | closeSeq
  /-- An opening brace. -/
  | openMap
  /-- A closing brace. -/
  | closeMap
  /-- `-`. -/
  | entry
  /-- `,`. -/
  | comma
  /-- `?`, or the start of a key without it. -/
  | key
  /-- `:`. -/
  | value
  /-- A reference to the anchor numbered `target`, if there is one of that name. -/
  | reference (name : String) (target : Option Nat)
  /-- A name for a node; anchors are numbered in order. -/
  | anchor (number : Nat)
  /-- The tag of a node. -/
  | tag (name : TagName)
  /-- A scalar. -/
  | scalar (text : String) (quoted : Bool)
  deriving DecidableEq, Repr

/-- A token and its line, counted from zero. -/
structure Item where
  /-- The token. -/
  token : Token
  /-- The line where it starts. -/
  line : Nat
  deriving DecidableEq, Repr

/-- Tokens and how they end. -/
inductive Stream where
  /-- The end of the text. -/
  | ended (line : Nat)
  /-- The text cannot be read any further. -/
  | failed (p : Problem)
  /-- A token, and what follows it. -/
  | cons (item : Item) (rest : Stream)
  deriving DecidableEq, Repr

namespace Stream

/-- The number of tokens. -/
def length : Stream → Nat
  | .ended _ | .failed _ => 0
  | .cons _ rest => rest.length + 1

/-- The stream of some tokens with a given end. -/
def ofList (stop : Stream) : List Item → Stream
  | [] => stop
  | i :: is => .cons i (ofList stop is)

end Stream

end PairDict.Yaml
