import PairDict.Yaml.Input
import PairDict.Yaml.Token

/-! # Scalars

A scalar is a piece of text, written in one of three ways.

* A **plain** scalar goes on to a comment, to a colon before a blank, or to the end
  of its block; in brackets, to a bracket, a comma or a question mark as well.
* A **quoted** scalar goes on to its closing quote.  Between single quotes a doubled
  quote stands for one; between double quotes a backslash escapes.
* A **block** of text holds lines that are indented, and keeps their ends (`|`) or
  folds them (`>`).

In the first two a line end between two words is **folded**: it counts as a blank, or,
if empty lines follow, as those lines' ends.

Each way of writing is read by a machine that takes one character at a time.
-/
namespace PairDict.Yaml

namespace Mark

/-- The place after a character. -/
def next (m : Mark) (c : Char) : Mark :=
  if isBreak c then ⟨m.index + 1, m.line + 1, 0⟩ else ⟨m.index + 1, m.line, m.column + 1⟩

/-- The place after some text. -/
def advance (m : Mark) (cs : List Char) : Mark := cs.foldl next m

end Mark

/-- A scalar that was read. -/
structure Reading where
  /-- Its text. -/
  text : String
  /-- The place after it. -/
  mark : Mark
  /-- The text after it. -/
  rest : List Char
  /-- Whether the place after it is on a new line. -/
  newLine : Bool

/-- What stands between two words. -/
inductive Fold where
  /-- Nothing. -/
  | none
  /-- Blanks, the last one first. -/
  | blanks (cs : List Char)
  /-- Line ends: the first, unless it was escaped, and those after it, the last one
  first. -/
  | breaks (first : Option Char) (more : List Char)

namespace Fold

/-- Whether there is anything. -/
def isSome : Fold → Bool
  | .none => false
  | _ => true

/-- Whether there is a line end. -/
def isBroken : Fold → Bool
  | .breaks _ _ => true
  | _ => false

/-- What it counts as, the last character first. -/
def text : Fold → List Char
  | .none => []
  | .blanks cs => cs
  | .breaks (some '\n') [] => [' ']
  | .breaks (some '\n') more => more
  | .breaks first more => more ++ first.toList

/-- With one more blank. -/
def blank (c : Char) : Fold → Fold
  | .none => .blanks [c]
  | .blanks cs => .blanks (c :: cs)
  | f => f

/-- With one more line end. -/
def newline (c : Char) : Fold → Fold
  | .breaks first more => .breaks first (c :: more)
  | _ => .breaks (some c) []

end Fold

/-! ## Plain scalars -/

/-- The characters that end a plain scalar in brackets. -/
def isFlow (c : Char) : Bool :=
  c = ',' || c = '?' || c = '[' || c = ']' || c = '\x7b' || c = '\x7d'

/-- Whether a plain scalar ends before `c`. -/
def endsPlain (flow : Bool) (c : Char) (cs : List Char) : Bool :=
  (c = ':' && isGapNext cs) || (flow && isFlow c)

/-- Read a plain scalar.  In a block, its lines have to be indented by `margin`; it
was begun on the line `begun`. -/
def plain (flow : Bool) (margin begun : Nat) (out : List Char) (fold : Fold) (m : Mark) :
    List Char → Except Problem Reading
  | [] => .ok ⟨.ofList out.reverse, m, [], fold.isBroken⟩
  | c :: cs =>
    if isBlank c then
      if fold.isBroken && m.column < margin && c = '\t' then
        .error (.ofToken .tabInPlain begun m.line)
      else plain flow margin begun out (fold.blank c) (m.next c) cs
    else if isBreak c then plain flow margin begun out (fold.newline c) (m.next c) cs
    else if fold.isSome && ((!flow && m.column < margin) || c = '#' ||
        (m.column = 0 && (isMark '-' (c :: cs) || isMark '.' (c :: cs)))) then
      .ok ⟨.ofList out.reverse, m, c :: cs, fold.isBroken⟩
    else if endsPlain flow c cs then .ok ⟨.ofList out.reverse, m, c :: cs, fold.isBroken⟩
    else plain flow margin begun (c :: (fold.text ++ out)) .none (m.next c) cs

/-! ## Quoted scalars -/

/-- What the last characters between quotes have begun. -/
inductive Pending where
  /-- Nothing. -/
  | none
  /-- A single quote, which is doubled or closes. -/
  | quote
  /-- A backslash. -/
  | backslash
  /-- A code of which some digits are left to read. -/
  | code (left value : Nat)

/-- The character that a backslash makes of the next one. -/
def escaped? : Char → Option Char
  | '0' => some '\x00'
  | 'a' => some '\x07'
  | 'b' => some '\x08'
  | 't' | '\t' => some '\t'
  | 'n' => some '\n'
  | 'v' => some '\x0b'
  | 'f' => some '\x0c'
  | 'r' => some '\r'
  | 'e' => some '\x1b'
  | ' ' => some ' '
  | '"' => some '"'
  | '\'' => some '\''
  | '\\' => some '\\'
  | 'N' => some '\u0085'
  | '_' => some '\u00a0'
  | 'L' => some '\u2028'
  | 'P' => some '\u2029'
  | _ => none

/-- The number of digits of the code that a character after a backslash starts. -/
def codeLength? : Char → Option Nat
  | 'x' => some 2
  | 'u' => some 4
  | 'U' => some 8
  | _ => none

/-- The character of a code. -/
def ofCode? (n : Nat) : Option Char := if h : n.isValidChar then some (.ofNatAux n h) else none

/-- Read a quoted scalar after its opening quote.  The text may stop early for the
reason `stop`. -/
def quoted (stop : Option Problem) (single : Bool) (begun : Nat) (out : List Char) (fold : Fold)
    (pending : Pending) (m : Mark) : List Char → Except Problem Reading
  | [] =>
    match pending with
    | .quote => .ok ⟨.ofList out.reverse, m, [], false⟩
    | .none => .error (stop.getD (.ofToken .openQuotes begun m.line))
    | .backslash => .error (stop.getD (.ofToken .unknownEscape begun m.line))
    | .code _ _ => .error (stop.getD (.ofToken .noHexDigit begun m.line))
  | c :: cs =>
    match pending with
    | .quote =>
      if c = '\'' then quoted stop single begun ('\'' :: out) .none .none (m.next c) cs
      else .ok ⟨.ofList out.reverse, m, c :: cs, false⟩
    | .backslash =>
      if isBreak c then quoted stop single begun out (.breaks none []) .none (m.next c) cs
      else match escaped? c, codeLength? c with
        | some d, _ => quoted stop single begun (d :: out) .none .none (m.next c) cs
        | none, some n => quoted stop single begun out .none (.code n 0) (m.next c) cs
        | none, none => .error (.ofToken .unknownEscape begun m.line)
    | .code left value =>
      match hexDigit? c with
      | none => .error (.ofToken .noHexDigit begun m.line)
      | some d =>
        if left > 1 then
          quoted stop single begun out .none (.code (left - 1) (value * 16 + d)) (m.next c) cs
        else match ofCode? (value * 16 + d) with
          | none => .error (.ofToken .badEscapeCode begun m.line)
          | some e => quoted stop single begun (e :: out) .none .none (m.next c) cs
    | .none =>
      if isBlank c then quoted stop single begun out (fold.blank c) .none (m.next c) cs
      else if isBreak c then quoted stop single begun out (fold.newline c) .none (m.next c) cs
      else if m.column = 0 && (isMark '-' (c :: cs) || isMark '.' (c :: cs)) then
        .error (.ofToken .markInQuotes begun m.line)
      else if single && c = '\'' then
        quoted stop single begun (fold.text ++ out) .none .quote (m.next c) cs
      else if !single && c = '"' then
        .ok ⟨.ofList (fold.text ++ out).reverse, m.next c, cs, false⟩
      else if !single && c = '\\' then
        quoted stop single begun (fold.text ++ out) .none .backslash (m.next c) cs
      else quoted stop single begun (c :: (fold.text ++ out)) .none .none (m.next c) cs

/-! ## Blocks of text -/

/-- What becomes of the line ends at the end of a block. -/
inductive Chomp where
  /-- They are dropped. -/
  | strip
  /-- One is kept. -/
  | clip
  /-- All are kept. -/
  | keep
  deriving DecidableEq, Repr

/-- The head of a block of text. -/
structure BlockHead where
  /-- Whether line ends are kept. -/
  literal : Bool
  /-- What becomes of the last ones. -/
  chomp : Chomp
  /-- The line where it begins. -/
  begun : Nat
  /-- How far lines have to be indented at least. -/
  margin : Nat

/-- What was read of a block of text. -/
structure BlockText where
  /-- How far its lines are indented, if that is known. -/
  indent : Option Nat
  /-- The largest indentation so far, while it is not known. -/
  widest : Nat := 0
  /-- The text, the last character first. -/
  out : List Char := []
  /-- The end of the last line. -/
  lineEnd : List Char := []
  /-- The empty lines after it, the last one first. -/
  empty : List Char := []
  /-- Whether the last line started with a blank. -/
  indented : Bool := false
  /-- Whether a line is being read. -/
  inLine : Bool := false

namespace BlockText

/-- Whether the place at a column is still in the indentation. -/
def isIndentation (b : BlockText) (column : Nat) : Bool :=
  (b.indent.map fun n => decide (column < n)).getD true

/-- How far lines are indented, where the first one starts at a column. -/
def settle (h : BlockHead) (b : BlockText) (column : Nat) : Nat :=
  b.indent.getD (max (max b.widest column) (max h.margin 1))

/-- The text with the line ends before a line that starts with `c`. -/
def beforeLine (h : BlockHead) (b : BlockText) (c : Char) : List Char :=
  let lineEnd :=
    if !h.literal && !b.indented && !isBlank c && b.lineEnd = ['\n'] then
      if b.empty.isEmpty then [' '] else []
    else b.lineEnd
  b.empty ++ lineEnd ++ b.out

/-- The whole text. -/
def finish (h : BlockHead) (b : BlockText) : String :=
  let lineEnd := if h.chomp = .strip then [] else b.lineEnd
  let empty := if h.chomp = .keep then b.empty else []
  .ofList (empty ++ lineEnd ++ b.out).reverse

end BlockText

/-- Read the lines of a block of text. -/
def blockText (h : BlockHead) (b : BlockText) (m : Mark) : List Char → Except Problem Reading
  | [] => .ok ⟨b.finish h, m, [], true⟩
  | c :: cs =>
    if b.inLine then
      if isBreak c then
        blockText h { b with inLine := false, lineEnd := [c], empty := [] } (m.next c) cs
      else blockText h { b with out := c :: b.out } (m.next c) cs
    else if c = ' ' && b.isIndentation m.column then blockText h b (m.next c) cs
    else if c = '\t' && b.isIndentation m.column then
      .error (.ofToken .tabInBlock h.begun m.line)
    else if isBreak c then
      blockText h { b with widest := max b.widest m.column, empty := c :: b.empty } (m.next c) cs
    else
      let indent := b.settle h m.column
      if m.column = indent then
        blockText h
          { b with
            indent := some indent, out := c :: b.beforeLine h c, lineEnd := [], empty := [],
            indented := isBlank c, inLine := true }
          (m.next c) cs
      else .ok ⟨b.finish h, m, c :: cs, true⟩

/-- The indicators at the head of a block of text: the chomping, the indentation
and what follows, or that the indentation is zero. -/
def blockIndicators : List Char → Option (Chomp × Nat × List Char)
  | cs =>
    let chomp? : List Char → Chomp × List Char
      | '+' :: cs => (.keep, cs)
      | '-' :: cs => (.strip, cs)
      | cs => (.clip, cs)
    let indent? : List Char → Nat × List Char
      | c :: cs => if isDigit c then (c.toNat - '0'.toNat, cs) else (0, c :: cs)
      | [] => (0, [])
    let isZero : List Char → Bool := fun cs => cs.head? = some '0'
    match chomp? cs with
    | (.clip, _) =>
      if isZero cs then none
      else
        let (n, cs) := indent? cs
        if n = 0 then some (.clip, 0, cs)
        else
          let (k, cs) := chomp? cs
          some (k, n, cs)
    | (k, cs) =>
      if isZero cs then none
      else
        let (n, cs) := indent? cs
        some (k, n, cs)

/-- Read a block of text after its `|` or `>`, where lines are indented by
`margin`. -/
def block (literal : Bool) (margin begun : Nat) (m : Mark) (cs : List Char) :
    Except Problem Reading :=
  match blockIndicators cs with
  | none => .error (.ofToken .zeroIndentation begun m.line)
  | some (chomp, increment, rest) =>
    let rest := rest.dropWhile isBlank
    let rest := if rest.head? = some '#' then rest.dropWhile (!isBreak ·) else rest
    if isLineEnd rest then
      let start : Mark := ⟨m.index + (cs.length - rest.length), m.line, m.column⟩
      let indent := if increment = 0 then none else some (margin - 1 + increment)
      match rest with
      | [] => blockText ⟨literal, chomp, begun, margin⟩ { indent } start []
      | c :: rest =>
        blockText ⟨literal, chomp, begun, margin⟩ { indent } (start.next c) rest
    else .error (.ofToken .noLineEnd begun m.line)

end PairDict.Yaml
