import PairDict.Yaml.Scalar

/-! # Reading tokens

Tokens are read one after another, with the **gap** of blanks, comments and line ends
before each of them dropped.  What a token is shows in its first characters; three
things depend on what came before.

* **Blocks.**  A list or mapping outside brackets is opened by an element or a key
  that stands further to the right than the block around it, and closed by a token
  that stands further to the left.
* **Keys.**  A key need not be marked as one: whether something is a key shows when a
  colon follows, on the same line and not too far away.  Then the token that marks
  the key is put before it, and the block that it may open as well.  So the scanner
  remembers, for every level of brackets, where the last possible key started.  A key
  that has to be one, because it stands where keys of its block stand, must be
  followed by a colon.
* **Brackets.**  Inside brackets lines do not count, and colons need no blank.

A stream that fails does so a little early: a reader of tokens is given a token only
when two more are known, and when it is known whether a key starts there.  A key that
has to be one makes the stream fail before it as soon as no colon can follow.  Brackets
in which nothing could be a key are an exception: once they are closed nobody waits to
see whether they are a key themselves, and a colon may come too late for that.
-/
namespace PairDict.Yaml

/-- A place where a key may have started. -/
structure Key where
  /-- The number of tokens before it. -/
  index : Nat
  /-- Whether it has to be a key. -/
  required : Bool
  /-- Where it starts. -/
  mark : Mark
  /-- Whether nobody waits to see if it is a key. -/
  loose : Bool := false
  deriving DecidableEq, Repr

/-- What a scanner remembers of one level of brackets. -/
structure Level where
  /-- The number of tokens before the bracket that opens it, until something in it could
  be a key. -/
  opened : Option Nat := none
  /-- The last possible key. -/
  key : Option Key := none
  deriving DecidableEq, Repr

/-- A level, when brackets in it are closed that opened after `opened` tokens, unless
something in them could be a key. -/
def Level.afterClose (l : Level) (opened : Option Nat) : Level :=
  { l with
    key := l.key.map fun k => if some k.index = opened then { k with loose := true } else k }

/-- What a scanner remembers. -/
structure Scanner where
  /-- The text that is left. -/
  rest : List Char
  /-- Why the text stops early, if it does. -/
  stop : Option Problem := none
  /-- The number of characters among which lines start with a mark. -/
  marked : Nat := 0
  /-- The place in the text. -/
  mark : Mark := {}
  /-- The column after the start of the innermost block; zero outside blocks. -/
  margin : Nat := 0
  /-- The same for the blocks around it, from the inside out. -/
  outer : List Nat := []
  /-- Whether a key may start here. -/
  keyAllowed : Bool := true
  /-- The innermost level of brackets. -/
  level : Level := {}
  /-- The levels around it, from the inside out. -/
  outerLevels : List Level := []
  /-- The names of the anchors, the last one first. -/
  anchors : List String := []
  /-- The tokens, the last one first. -/
  tokens : List Item := []

namespace Scanner

/-- Whether the scanner is inside brackets. -/
def inFlow (s : Scanner) : Bool := !s.outerLevels.isEmpty

/-- A problem with a token that starts where the scanner is. -/
def fail {β : Type} (s : Scanner) (cause : Cause) : Except Problem β :=
  .error (.ofToken cause s.mark.line s.mark.line)

/-- Add a token that starts where the scanner is. -/
def emit (s : Scanner) (t : Token) : Scanner := { s with tokens := ⟨t, s.mark.line⟩ :: s.tokens }

/-- Put a token before all but the first `index` tokens. -/
def insert (s : Scanner) (index : Nat) (i : Item) : Scanner :=
  let later := s.tokens.length - index
  { s with tokens := s.tokens.take later ++ i :: s.tokens.drop later }

/-- Go past the first `n` characters. -/
def skip (s : Scanner) (n : Nat) : Scanner :=
  { s with mark := s.mark.advance (s.rest.take n), rest := s.rest.drop n }

/-! ## Gaps -/

/-- Where in a gap the scanner is. -/
inductive Gap where
  /-- Between comments. -/
  | blank
  /-- In a comment. -/
  | comment
  /-- After a comment that another one follows, with nothing in between. -/
  | lead

/-- Whether a comment is the next thing. -/
def isCommentNext (cs : List Char) : Bool :=
  (cs.dropWhile fun c => isBlank c || isBreak c).head? = some '#'

/-- Go past a gap: the place after it, whether a key may start there, and what
follows.  A line end allows keys, outside brackets.  Where a key may start a tab is no
blank.  Lines that start before the place `marked` start with a mark. -/
def gap (marked : Nat) (flow : Bool) (at_ : Gap) (keyAllowed : Bool) (m : Mark) :
    List Char → Mark × Bool × List Char
  | [] => (m, keyAllowed, [])
  | c :: cs =>
    match at_ with
    | .comment =>
      if !isBreak c then gap marked flow .comment keyAllowed (m.next c) cs
      else if isCommentNext cs then gap marked flow .lead keyAllowed (m.next c) cs
      else gap marked flow .blank (keyAllowed || !flow) (m.next c) cs
    | .lead => gap marked flow (if c = '#' then .comment else .lead) keyAllowed (m.next c) cs
    | .blank =>
      if m.column = 0 && m.index < marked then
        gap marked flow .blank keyAllowed ⟨m.index + 1, m.line, 1⟩ cs
      else if c = ' ' || (c = '\t' && (flow || !keyAllowed)) then
        gap marked flow .blank keyAllowed (m.next c) cs
      else if c = '#' then gap marked flow .comment keyAllowed (m.next c) cs
      else if isBreak c then gap marked flow .blank (keyAllowed || !flow) (m.next c) cs
      else (m, keyAllowed, c :: cs)

/-- The scanner after a gap. -/
def skipGap (s : Scanner) : Scanner :=
  let (mark, keyAllowed, rest) := gap s.marked s.inFlow .blank s.keyAllowed s.mark s.rest
  { s with mark, keyAllowed, rest }

/-- The scanner after a comment on the line of the token before it. -/
def skipComment (s : Scanner) : Scanner :=
  let blanks := s.rest.takeWhile isBlank
  let rest := s.rest.drop blanks.length
  if rest.head? = some '#' then s.skip (blanks.length + (rest.takeWhile (!isBreak ·)).length)
  else s

/-! ## Keys -/

/-- The problem of a key without a colon. -/
def noColon (s : Scanner) (k : Key) : Problem := .ofToken .missingColon k.mark.line s.mark.line

/-- The scanner without a possible key. -/
def withoutKey (s : Scanner) : Scanner := { s with level := { s.level with key := none } }

/-- Give up the last possible key, if that is possible. -/
def dropKey (s : Scanner) : Except Problem Scanner :=
  match s.level.key with
  | none => .ok s
  | some k => if k.required then .error (s.noColon k) else .ok s.withoutKey

/-- Remember that a key may start here, if it may. -/
def saveKey (s : Scanner) : Except Problem Scanner :=
  if s.keyAllowed then do
    let k : Key := ⟨s.tokens.length, !s.inFlow && s.margin = s.mark.column + 1, s.mark, false⟩
    return { ← s.dropKey with level := ⟨none, some k⟩ }
  else .ok s

/-- How many characters a key may have. -/
def keyLimit : Nat := 1024

/-- Whether a colon here would belong to a key that started earlier. -/
def isLive (s : Scanner) (k : Key) : Bool :=
  k.mark.line = s.mark.line && s.mark.index ≤ k.mark.index + keyLimit

/-- The last possible key, if a colon here belongs to it. -/
def liveKey (s : Scanner) : Except Problem (Option Key) :=
  match s.level.key with
  | none => .ok none
  | some k =>
    if s.isLive k then .ok (some k) else if k.required then .error (s.noColon k) else .ok none

/-- The possible keys of all levels that are waited for. -/
def keys (s : Scanner) : List Key :=
  (s.level :: s.outerLevels).filterMap fun l => l.key.filter (!·.loose)

/-- The number of tokens that a reader is given before the scanner goes on. -/
def known (s : Scanner) : Nat :=
  ((s.keys.filter s.isLive).map (·.index)).foldl min (s.tokens.length - 2)

/-! ## Blocks -/

/-- How deeply blocks and brackets may be nested. -/
def depthLimit : Nat := 10000

/-- Open a block at a column with the token `t`, put before all but the first `index`
tokens, unless a block is open there. -/
def openBlock (s : Scanner) (column index : Nat) (t : Token) (line : Nat) :
    Except Problem Scanner :=
  if !s.inFlow && s.margin ≤ column then
    if depthLimit ≤ s.outer.length then .error (.ofToken .tooDeep 0 s.mark.line)
    else .ok ({ s with margin := column + 1, outer := s.margin :: s.outer }.insert index ⟨t, line⟩)
  else .ok s

/-- Close blocks while the margin is above a limit: the margin, those around it, and
the tokens. -/
def closeFrom (limit line margin : Nat) (tokens : List Item) :
    List Nat → Nat × List Nat × List Item
  | [] => (margin, [], tokens)
  | m :: ms =>
    if limit < margin then closeFrom limit line m (⟨.blockEnd, line⟩ :: tokens) ms
    else (margin, m :: ms, tokens)

/-- Close the blocks whose margin is above a limit. -/
def closeBlocks (s : Scanner) (limit line : Nat) : Scanner :=
  if s.inFlow then s
  else
    let (margin, outer, tokens) := closeFrom limit line s.margin s.tokens s.outer
    { s with margin, outer, tokens }

/-! ## Tokens -/

/-- Read an opening bracket or brace. -/
def openFlow (s : Scanner) (t : Token) : Except Problem Scanner := do
  let s ← s.saveKey
  let s := { s with
    outerLevels := s.level :: s.outerLevels, level := ⟨some s.tokens.length, none⟩ }
  if depthLimit < s.outerLevels.length then s.fail .tooDeep
  else return { s.emit t with keyAllowed := true }.skip 1

/-- Read a closing bracket or brace. -/
def closeFlow (s : Scanner) (t : Token) : Except Problem Scanner := do
  let s ← s.dropKey
  let s := match s.outerLevels with
    | [] => s
    | l :: ls =>
      { s with level := l.afterClose s.level.opened, outerLevels := ls }
  return { s.emit t with keyAllowed := false }.skip 1

/-- Read a comma. -/
def comma (s : Scanner) : Except Problem Scanner := do
  return { (← s.dropKey).emit .comma with keyAllowed := true }.skip 1

/-- Read the `-` of an element. -/
def entry (s : Scanner) : Except Problem Scanner := do
  if !s.inFlow && !s.keyAllowed then s.fail .misplacedEntry
  else
    let s ← s.openBlock s.mark.column s.tokens.length .blockSeq s.mark.line
    return { (← s.dropKey).emit .entry with keyAllowed := true }.skip 1

/-- Read the `?` of a key. -/
def questionMark (s : Scanner) : Except Problem Scanner := do
  if !s.inFlow && !s.keyAllowed then s.fail .misplacedKey
  else
    let s ← s.openBlock s.mark.column s.tokens.length .blockMap s.mark.line
    return { (← s.dropKey).emit .key with keyAllowed := !s.inFlow }.skip 1

/-- Read the `:` of a value.  If the tokens from its key on were given away, the token that
marks the key comes too late and stands where it can. -/
def colon (s : Scanner) : Except Problem Scanner := do
  match ← s.liveKey with
  | some k =>
    let late := k.index < s.known
    let s := s.insert (if late then s.tokens.length else k.index) ⟨.key, k.mark.line⟩
    let s ← s.openBlock k.mark.column (if late then s.tokens.length else k.index) .blockMap
      k.mark.line
    return { s.withoutKey.emit .value with keyAllowed := false }.skip 1
  | none =>
    if !s.inFlow && !s.keyAllowed then s.fail .misplacedValue
    else
      let s ← s.openBlock s.mark.column s.tokens.length .blockMap s.mark.line
      return { s.withoutKey.emit .value with keyAllowed := !s.inFlow }.skip 1

/-- Read the mark of a document. -/
def documentMark (s : Scanner) (t : Token) : Except Problem Scanner := do
  let s ← (s.closeBlocks 0 s.mark.line).dropKey
  return { s.emit t with keyAllowed := false }.skip 3

/-- Read the name of an anchor or an alias after its indicator. -/
def anchorName (s : Scanner) : Except Problem String :=
  let name := (s.rest.drop 1).takeWhile isWord
  let rest := (s.rest.drop 1).drop name.length
  if name.isEmpty || !(isGapNext rest ||
      ['?', ':', ',', ']', '\x7d', '%', '@', '\u0060'].contains (rest.headD ' ')) then
    s.fail .noAnchorName
  else .ok (.ofList name)

/-- Read an anchor. -/
def anchor (s : Scanner) : Except Problem Scanner := do
  let s ← s.saveKey
  let name ← s.anchorName
  return { s.emit (.anchor s.anchors.length) with
    anchors := name :: s.anchors, keyAllowed := false }.skip (name.length + 1)

/-- Read an alias. -/
def reference (s : Scanner) : Except Problem Scanner := do
  let s ← s.saveKey
  let name ← s.anchorName
  let target := (s.anchors.findIdx? (· = name)).map (s.anchors.length - 1 - ·)
  return { s.emit (.reference name target) with keyAllowed := false }.skip (name.length + 1)

/-- Read a scalar by one of the machines, after `n` characters of its head. -/
def scalar (s : Scanner) (n : Nat) (quoted : Bool)
    (read : Mark → List Char → Except Problem Reading) : Except Problem (Scanner × Bool) := do
  let s ← s.saveKey
  let r ← read (s.mark.advance (s.rest.take n)) (s.rest.drop n)
  return ({ s.emit (.scalar r.text quoted) with
    mark := r.mark, rest := r.rest, keyAllowed := r.newLine }, r.newLine)

/-- Read a block of text. -/
def blockScalar (s : Scanner) (literal : Bool) : Except Problem Scanner := do
  let s ← s.dropKey
  let r ← block literal s.margin s.mark.line (s.mark.advance (s.rest.take 1)) (s.rest.drop 1)
  return { s.emit (.scalar r.text true) with mark := r.mark, rest := r.rest, keyAllowed := true }

/-! ## Tags -/

/-- The characters of a tag besides those of names. -/
def isTagChar (c : Char) : Bool :=
  isWord c || (";/?:@&=+$,.!~*'()[]%".toList.contains c)

/-- The byte that a per cent sign and two digits spell, and what follows. -/
def octet? : List Char → Option (Nat × List Char)
  | '%' :: a :: b :: cs => do return ((← hexDigit? a) * 16 + (← hexDigit? b), cs)
  | _ => none

/-- The character that escaped bytes spell, of which `left` are to come after those
that spell `code`. -/
def escapedChar (code : Nat) : Nat → List Char → Except Cause (Char × List Char)
  | 0, cs => .ok (Char.ofNat code, cs)
  | left + 1, cs =>
    match octet? cs with
    | none => .error .noEscapedOctet
    | some (n, cs) =>
      if n / 64 = 2 then escapedChar (code * 64 + n % 64) left cs else .error .badTrailingEscape

/-- The first escaped character of a text. -/
def escapedFront (cs : List Char) : Except Cause (Char × List Char) :=
  match octet? cs with
  | none => .error .noEscapedOctet
  | some (n, cs) =>
    match Input.width? (UInt8.ofNat n) with
    | none => .error .badLeadingEscape
    | some width =>
      let bits := 8 - width - if width = 1 then 0 else 1
      escapedChar (n % Nat.pow 2 bits) (width - 1) cs

/-- Read the name of a tag, at most `fuel` characters: it and what follows. -/
def tagText : Nat → List Char → Except Cause (List Char × List Char)
  | 0, cs => .ok ([], cs)
  | fuel + 1, cs =>
    match cs with
    | [] => .ok ([], [])
    | c :: cs' =>
      if !isTagChar c then .ok ([], cs)
      else do
        let (d, rest) ← if c = '%' then escapedFront cs else pure (c, cs')
        let (more, rest) ← tagText fuel rest
        return (d :: more, rest)

/-- Read the handle of a tag: it and what follows. -/
def tagHandle (cs : List Char) : List Char × List Char :=
  let name := (cs.drop 1).takeWhile isWord
  let rest := (cs.drop 1).drop name.length
  if rest.head? = some '!' then ('!' :: name ++ ['!'], rest.drop 1) else ('!' :: name, rest)

/-- Read the name of a tag, at the front of a text: it and what follows. -/
def tagName (cs : List Char) : Except Cause (TagName × List Char) :=
  match cs with
  | '!' :: '<' :: rest => do
    let (uri, rest) ← tagText rest.length rest
    if uri.isEmpty then throw .noTagName
    else if rest.head? = some '>' then return (⟨"", .ofList uri⟩, rest.drop 1)
    else throw .noAngle
  | _ => do
    let (handle, rest) := tagHandle cs
    let (more, rest) ← tagText rest.length rest
    if 1 < handle.length && handle.getLast? = some '!' then
      if more.isEmpty then throw .noTagName
      else return (⟨.ofList handle, .ofList more⟩, rest)
    else
      let suffix := handle.drop 1 ++ more
      if suffix.isEmpty then return (⟨"", "!"⟩, rest)
      else return (⟨"!", .ofList suffix⟩, rest)

/-- Read a tag. -/
def tag (s : Scanner) : Except Problem Scanner := do
  let s ← s.saveKey
  match tagName s.rest with
  | .error cause => s.fail cause
  | .ok (name, rest) =>
    if isGapNext rest then
      return { s.emit (.tag name) with keyAllowed := false }.skip (s.rest.length - rest.length)
    else s.fail .noBlankOrLineEnd

/-! ## Directives -/

/-- Read a number of a version: it and what follows. -/
def versionNumber (cs : List Char) : Except Cause (Nat × List Char) :=
  let digits := cs.takeWhile isDigit
  if digits.isEmpty then .error .noVersion
  else if 2 < digits.length then .error .longVersion
  else .ok (Nat.ofDigitChars 10 digits 0, cs.drop digits.length)

/-- Read the version that a directive names. -/
def version (cs : List Char) : Except Cause (Token × List Char) := do
  let (major, rest) ← versionNumber (cs.dropWhile isBlank)
  if rest.head? ≠ some '.' then throw .noVersionPoint
  let (minor, rest) ← versionNumber (rest.drop 1)
  return (.version major minor, rest)

/-- Read the handle that a directive explains. -/
def handle (cs : List Char) : Except Cause (Token × List Char) := do
  let cs := cs.dropWhile isBlank
  if cs.head? ≠ some '!' then throw .noExclamation
  let (name, rest) := tagHandle cs
  if name.length ≠ 1 && name.getLast? ≠ some '!' then throw .noExclamation
  if !(rest.head?.map isBlank).getD false then throw .noBlank
  let rest := rest.dropWhile isBlank
  let (uri, rest) ← tagText rest.length rest
  if uri.isEmpty then throw .noTagName
  if !isGapNext rest then throw .noBlankOrLineEnd
  return (.handle (.ofList name) (.ofList uri), rest)

/-- Read a directive after its `%`: the token and what follows its line. -/
def directiveText (cs : List Char) : Except Cause (Token × List Char) := do
  let name := cs.takeWhile isWord
  let rest := cs.drop name.length
  if name.isEmpty then throw .noDirectiveName
  if !isGapNext rest then throw .badDirectiveName
  let (t, rest) ←
    if name = "YAML".toList then version rest
    else if name = "TAG".toList then handle rest
    else throw .unknownDirective
  let rest := rest.dropWhile isBlank
  let rest := if rest.head? = some '#' then rest.dropWhile (!isBreak ·) else rest
  if isLineEnd rest then return (t, rest.drop 1) else throw .noLineEnd

/-- Read a directive. -/
def directive (s : Scanner) : Except Problem Scanner := do
  let s ← (s.closeBlocks 0 s.mark.line).dropKey
  match directiveText (s.rest.drop 1) with
  | .error cause => s.fail cause
  | .ok (t, rest) =>
    return { s.emit t with keyAllowed := false }.skip (s.rest.length - rest.length)

/-! ## Streams -/

/-- Whether a plain scalar can start with `c`. -/
def startsPlain (flow : Bool) (c : Char) (cs : List Char) : Bool :=
  !("-?:,[]\x7b\x7d#&*!|>'\"%@\u0060\t".toList.contains c) ||
    (c = '-' && !(cs.head?.map isBlank).getD false) ||
    (!flow && (c = '?' || c = ':') && !isGapNext cs)

/-- Read the token that starts with `c`, outside the marks of documents, with a
comment on its line. -/
def token (s : Scanner) (c : Char) (cs : List Char) : Except Problem Scanner := do
  let indicator := s.inFlow || isGapNext cs
  if c = '[' then return (← s.openFlow .openSeq).skipComment
  else if c = '\x7b' then return (← s.openFlow .openMap).skipComment
  else if c = ']' then return (← s.closeFlow .closeSeq).skipComment
  else if c = '\x7d' then return (← s.closeFlow .closeMap).skipComment
  else if c = ',' then return (← s.comma).skipComment
  else if c = '-' && isGapNext cs then s.entry
  else if c = '?' && indicator then return (← s.questionMark).skipComment
  else if c = ':' && indicator then return (← s.colon).skipComment
  else if c = '*' then return (← s.reference).skipComment
  else if c = '&' then return (← s.anchor).skipComment
  else if c = '!' then return (← s.tag).skipComment
  else if c = '|' && !s.inFlow then s.blockScalar true
  else if c = '>' && !s.inFlow then s.blockScalar false
  else
    let begun := s.mark.line
    let (s, newLine) ←
      if c = '\'' then s.scalar 1 true (quoted s.stop true begun [] .none .none)
      else if c = '"' then s.scalar 1 true (quoted s.stop false begun [] .none .none)
      else if startsPlain s.inFlow c cs then
        s.scalar 0 false (plain s.inFlow s.margin begun [] .none)
      else s.fail .noToken
    return if newLine then s else s.skipComment

/-- The outcome of reading one token. -/
inductive Step where
  /-- There may be more. -/
  | more (s : Scanner)
  /-- That was the end of the text, on the given line. -/
  | ended (s : Scanner) (line : Nat)

/-- How many characters a token may need to show what it is. -/
def lookahead : Nat := 4

/-- Whether fewer characters are left than that. -/
def isNearEnd (s : Scanner) : Bool := (s.rest.drop (lookahead - 1)).isEmpty

/-- The number of characters among which lines start with a mark, after a token that
starts with `c` is looked at.  To look at the last characters the text before them is
given up, and with it a mark at its start. -/
def markedFrom (s : Scanner) (c : Char) : Nat :=
  if s.isNearEnd then if c = '\ufeff' then s.mark.index + s.rest.length else 0
  else if s.marked < s.mark.index + lookahead then 0
  else s.marked

/-- Read one token.  If the text stops early, the last four characters are out of
reach. -/
def step (s : Scanner) : Except Problem Step := do
  let line := s.mark.line
  let s := s.skipGap
  let s := s.closeBlocks (s.mark.column + 1) line
  match s.stop with
  | some p => if s.isNearEnd then throw p
  | none => pure ()
  match s.rest with
  | [] =>
    let line := if s.mark.column = 0 then s.mark.line else s.mark.line + 1
    let s := { s with mark := ⟨s.mark.index, line, 0⟩ }
    return .ended (← (s.closeBlocks 0 line).dropKey) line
  | c :: cs =>
    let s := { s with marked := s.markedFrom c }
    let s ←
      if s.mark.column = 0 && c = '%' then s.directive
      else if s.mark.column = 0 && isMark '-' (c :: cs) then s.documentMark .documentStart
      else if s.mark.column = 0 && isMark '.' (c :: cs) then s.documentMark .documentEnd
      else s.token c cs
    match s.stop with
    | some p => if s.rest.all isBlank then throw p else return .more s
    | none => return .more s

/-- The first key that has to be one and that no colon can follow, if a reader of tokens
gets there when `count` tokens are known. -/
def failedKey? (s : Scanner) (count : Nat) : Option Key :=
  s.keys.reverse.find? fun k => k.required && !s.isLive k && k.index + 3 ≤ count

/-- The stream of what is left to read, with at most `fuel` steps.  At the end of the
text there are as many tokens as a reader may want to know. -/
def run : Nat → Scanner → Stream
  | 0, s => .ofList (.ended s.mark.line) s.tokens.reverse
  | fuel + 1, s =>
    match s.step with
    | .error p => .ofList (.failed p) (s.tokens.reverse.take s.known)
    | .ok (.more s') =>
      match s'.failedKey? s'.tokens.length with
      | some k => .ofList (.failed (s'.noColon k)) (s'.tokens.reverse.take k.index)
      | none => run fuel s'
    | .ok (.ended s' line) =>
      match s'.failedKey? (s'.tokens.length + 3) with
      | some k => .ofList (.failed (s'.noColon k)) (s'.tokens.reverse.take k.index)
      | none => .ofList (.ended line) s'.tokens.reverse

end Scanner

/-- The tokens of a document.  Every step but the last takes at least one
character. -/
def Input.tokens (i : Input) : Stream :=
  Scanner.run (i.chars.length + 1) { rest := i.chars, stop := i.stop, marked := i.marked }

end PairDict.Yaml
