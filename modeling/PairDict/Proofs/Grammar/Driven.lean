import PairDict.Lexeme.Cursor
import PairDict.Tree.Parser

/-! # Reading a program with a cursor

`TokenStream.program` has the whole stream in front of it.  A **driven** reader has a cursor
on the stream, and reads the same grammar with no more than that:

* it decides by the kind of the token under its cursor;
* when it has taken the token, it moves the cursor, and a move that ends on a failure stops
  it at once, whatever it would have read next;
* it asks the cursor for the value of a number or of a truth value, and the cursor may answer
  that it has none.

Three things can stop it: a failure of the stream, a token that does not fit, and a misuse of
the cursor, which would be a mistake of the reader (`Stop`).  The moves are counted.
-/
namespace PairDict

/-- Why a driven reader stops. -/
inductive Stop where
  /-- The cursor was moved onto a failure. -/
  | scan (e : ScanError)
  /-- The token under the cursor does not fit the grammar. -/
  | parse (e : ParseError)
  /-- The cursor was asked for a value that it does not have. -/
  | misuse (m : Misuse)
  deriving DecidableEq, Repr

/-- A syntax error as a reason to stop. -/
def Stop.ofSyntax : SyntaxError → Stop
  | .scan e => .scan e
  | .parse e => .parse e

/-- A reader at work.  Its state is how often the cursor was moved, and it stops with a reason,
if it has one. -/
abbrev Driver (β : Type) := EStateM (Option Stop) Nat β

namespace Driver

open PairDict.Parser (isUnary combine)

variable {β : Type}

/-- What a driver has taken off a stream: what it has read, and a rest of fewer than `n`
lexemes, on which its cursor stands. -/
structure Taken (β : Type) (n : Nat) where
  /-- What was read. -/
  value : β
  /-- The stream after it. -/
  rest : TokenStream
  /-- The rest is short. -/
  le : rest.length + 1 ≤ n

/-- A driver that reads a `β` while its cursor stands on a stream of `n - 1` lexemes. -/
abbrev Reads (β : Type) (n : Nat) := Driver (Taken β n)

/-! ## The cursor -/

/-- Move a cursor.  On an erroneous token the reader stops, with the failure that the cursor
knows of. -/
def move (c : Cursor) : Driver Cursor := fun moves =>
  if c.next.token = .error then .error (c.next.failure?.map .scan) (moves + 1)
  else .ok c.next (moves + 1)

/-- Move on from a lexeme. -/
def pass (l : Lexeme) (rest : TokenStream) : Reads Unit (rest.length + 1) := do
  let _ ← move (.on (.cons l rest))
  return ⟨(), rest, Nat.lt_succ_self _⟩

/-- Take what a cursor answers. -/
def ask : Except Misuse β → Driver β
  | .ok b => pure b
  | .error m => throw (some (.misuse m))

/-- The word at the front of a stream. -/
def word? : TokenStream → Option Word
  | .cons l _ => some l.word
  | _ => none

/-- Refuse the token under the cursor, where only `expected` would have fit. -/
def refuse (expected : Option Token) (s : TokenStream) : Driver β :=
  throw (some (.parse ⟨s.pos, expected, word? s⟩))

/-- Take a token of the kind `t`. -/
def want (t : Token) (s : TokenStream) : Reads Pos s.length :=
  match s with
  | .cons l rest =>
    if l.word.token = t then do
      let ⟨_, rest', h⟩ ← pass l rest
      return ⟨l.pos, rest', h⟩
    else refuse (some t) (.cons l rest)
  | s => refuse (some t) s

/-- Take a token of the kind `t`, if there is one. -/
def got (t : Token) (s : TokenStream) :
    Driver (Option { rest : TokenStream // rest.length + 1 ≤ s.length }) :=
  match s with
  | .cons l rest =>
    if l.word.token = t then do
      let ⟨_, rest', h⟩ ← pass l rest
      return some ⟨rest', h⟩
    else return none
  | _ => return none

/-- Take a name. -/
def ident (s : TokenStream) : Reads (Ident Pos) s.length :=
  match s with
  | .cons l rest =>
    if l.word.token = .name then do
      let ⟨_, rest', h⟩ ← pass l rest
      return ⟨⟨l.pos, l.word.literal⟩, rest', h⟩
    else refuse (some .name) (.cons l rest)
  | s => refuse (some .name) s

/-! ## Expressions -/

mutual

/-- Read an expression whose operators bind tighter than `level`. -/
def binary (level : Nat) (s : TokenStream) : Reads (Expr Pos) s.length := do
  let ⟨x, rest, h⟩ ← unary s
  let ⟨y, rest', h'⟩ ← binaryTail level x rest
  return ⟨y, rest', by omega⟩
termination_by 4 * s.length + 3

/-- Continue an expression that started with `x` by further operands. -/
def binaryTail (level : Nat) (x : Expr Pos) (s : TokenStream) :
    Reads (Expr Pos) (s.length + 1) :=
  match s with
  | .cons l rest =>
    if level < l.word.token.precedence then do
      let ⟨_, rest₁, h₁⟩ ← pass l rest
      let ⟨y, rest₂, h₂⟩ ← binary l.word.token.precedence rest₁
      let ⟨z, rest₃, h₃⟩ ← binaryTail level (combine l.word.token x y) rest₂
      return ⟨z, rest₃, by simp; omega⟩
    else return ⟨x, .cons l rest, by omega⟩
  | s => return ⟨x, s, by omega⟩
termination_by 4 * s.length

/-- Read an operand with at most one operator before it. -/
def unary (s : TokenStream) : Reads (Expr Pos) s.length :=
  match s with
  | .cons l rest =>
    if isUnary l.word then do
      let ⟨_, rest₁, h₁⟩ ← pass l rest
      let ⟨x, rest₂, h₂⟩ ← postfixed rest₁
      return ⟨.unary l.pos l.word.token x, rest₂, by simp; omega⟩
    else postfixed (.cons l rest)
  | s => postfixed s
termination_by 4 * s.length + 2

/-- Read an operand with any number of brackets after it. -/
def postfixed (s : TokenStream) : Reads (Expr Pos) s.length := do
  let ⟨x, rest, h⟩ ← operand s
  let ⟨y, rest', h'⟩ ← brackets x rest
  return ⟨y, rest', by omega⟩
termination_by 4 * s.length + 1

/-- Continue an operand `x` by the brackets after it. -/
def brackets (x : Expr Pos) (s : TokenStream) : Reads (Expr Pos) (s.length + 1) :=
  match s with
  | .cons l rest =>
    if l.word.token = .symbol .lbrack then do
      let ⟨_, inside, hi⟩ ← pass l rest
      let ⟨key, afterKey, hk⟩ ← binary 0 inside
      match ← got (.symbol .colon) afterKey with
      | none => do
        let ⟨_, afterBracket, hb⟩ ← want (.symbol .rbrack) afterKey
        let ⟨y, rest', h'⟩ ← brackets (.select x.ann .get x key) afterBracket
        return ⟨y, rest', by simp; omega⟩
      | some ⟨afterColon, hc⟩ =>
        match ← got (.symbol .rbrack) afterColon with
        | some ⟨afterBracket, hb⟩ => do
          let ⟨y, rest', h'⟩ ← brackets (.select x.ann .delete x key) afterBracket
          return ⟨y, rest', by simp; omega⟩
        | none => do
          let ⟨value, afterValue, hv⟩ ← binary 0 afterColon
          let ⟨_, afterBracket, hb⟩ ← want (.symbol .rbrack) afterValue
          let ⟨y, rest', h'⟩ ← brackets (.store x.ann .update x key value) afterBracket
          return ⟨y, rest', by simp; omega⟩
    else return ⟨x, .cons l rest, by omega⟩
  | s => return ⟨x, s, by omega⟩
termination_by 4 * s.length

/-- Read a dictionary of one entry, a literal, a variable or a parenthesis. -/
def operand (s : TokenStream) : Reads (Expr Pos) s.length :=
  match s with
  | .cons l rest =>
    match l.word.token with
    | .symbol .lbrack => do
      let ⟨_, inside, hi⟩ ← pass l rest
      let ⟨key, afterKey, hk⟩ ← binary 0 inside
      let ⟨_, afterColon, hc⟩ ← want (.symbol .colon) afterKey
      let ⟨value, afterValue, hv⟩ ← binary 0 afterColon
      let ⟨_, rest', hb⟩ ← want (.symbol .rbrack) afterValue
      return ⟨.entry l.pos key value, rest', by simp; omega⟩
    | .bool => do
      let b ← ask (Cursor.on (.cons l rest)).bool
      let ⟨_, rest', h⟩ ← pass l rest
      return ⟨.bool l.pos b, rest', h⟩
    | .num => do
      let n ← ask (Cursor.on (.cons l rest)).int
      let ⟨_, rest', h⟩ ← pass l rest
      return ⟨.int l.pos n, rest', h⟩
    | .name => do
      let ⟨_, rest', h⟩ ← pass l rest
      return ⟨.name l.pos l.word.literal, rest', h⟩
    | .symbol .lparen => do
      let ⟨_, inside, hi⟩ ← pass l rest
      let ⟨x, afterExpr, hx⟩ ← binary 0 inside
      let ⟨_, rest', hp⟩ ← want (.symbol .rparen) afterExpr
      return ⟨x, rest', by simp; omega⟩
    | _ => refuse none (.cons l rest)
  | s => refuse none s
termination_by 4 * s.length

end

/-- Read an expression. -/
def expr (s : TokenStream) : Reads (Expr Pos) s.length := binary 0 s

/-- Read an expression in parentheses. -/
def parenthesized (s : TokenStream) : Reads (Expr Pos) s.length := do
  let ⟨_, inside, ho⟩ ← want (.symbol .lparen) s
  let ⟨x, afterExpr, hx⟩ ← expr inside
  let ⟨_, rest, hc⟩ ← want (.symbol .rparen) afterExpr
  return ⟨x, rest, by omega⟩

/-! ## Statements -/

/-- Whether a sequence may end at a token, after a `;`. -/
def endsSeq : Token → Bool
  | .eof | .symbol .rbrace => true
  | _ => false

mutual

/-- Read a sequence of statements. -/
def seq (s : TokenStream) : Reads (Seq Pos) s.length := do
  let ⟨first, rest, h⟩ ← stmt s
  match ← got (.symbol .semi) rest with
  | none => return ⟨.cons s.pos first (.empty rest.pos), rest, h⟩
  | some ⟨rest', h'⟩ =>
    if endsSeq rest'.token then
      return ⟨.cons s.pos first (.empty rest'.pos), rest', by omega⟩
    else do
      let ⟨more, rest'', h''⟩ ← seq rest'
      return ⟨.cons s.pos first more, rest'', by omega⟩
termination_by 2 * s.length + 1

/-- Read a statement. -/
def stmt (s : TokenStream) : Reads (Stmt Pos) s.length :=
  match s with
  | .cons l rest =>
    match l.word.token with
    | .keyword .varKw => do
      let ⟨_, afterVar, hv⟩ ← pass l rest
      let ⟨x, afterName, hn⟩ ← ident afterVar
      let ⟨_, afterAssign, ha⟩ ← want (.symbol .assign) afterName
      let ⟨value, rest', he⟩ ← expr afterAssign
      return ⟨.var l.pos x value, rest', by simp; omega⟩
    | .name => do
      let ⟨_, afterName, hn⟩ ← pass l rest
      let ⟨_, afterAssign, ha⟩ ← want (.symbol .assign) afterName
      let ⟨value, rest', he⟩ ← expr afterAssign
      return ⟨.assign l.pos ⟨l.pos, l.word.literal⟩ value, rest', by simp; omega⟩
    | .keyword .printKw => do
      let ⟨_, afterPrint, hp⟩ ← pass l rest
      let ⟨x, rest', he⟩ ← expr afterPrint
      return ⟨.print l.pos x, rest', by simp; omega⟩
    | .keyword .ifKw => do
      let ⟨_, afterIf, hi⟩ ← pass l rest
      let ⟨cond, afterCond, hc⟩ ← parenthesized afterIf
      let ⟨yes, afterYes, hy⟩ ← block afterCond
      match ← got (.keyword .elseKw) afterYes with
      | none => return ⟨.ifThen l.pos cond yes, afterYes, by simp; omega⟩
      | some ⟨afterElse, he⟩ => do
        let ⟨no, rest', hn⟩ ← block afterElse
        return ⟨.ifElse l.pos cond yes no, rest', by simp; omega⟩
    | .keyword .forKw => do
      let ⟨_, afterFor, hf⟩ ← pass l rest
      let ⟨_, afterParen, hp⟩ ← want (.symbol .lparen) afterFor
      let ⟨_, afterVar, hv⟩ ← want (.keyword .varKw) afterParen
      let ⟨x, afterName, hx⟩ ← ident afterVar
      let ⟨_, afterOf, ho⟩ ← want (.keyword .ofKw) afterName
      let ⟨dict, afterDict, hd⟩ ← expr afterOf
      let ⟨_, afterClose, hc⟩ ← want (.symbol .rparen) afterDict
      let ⟨body, rest', hb⟩ ← block afterClose
      return ⟨.forEach l.pos x dict body, rest', by simp; omega⟩
    | _ => refuse none (.cons l rest)
  | s => refuse none s
termination_by 2 * s.length

/-- Read a block. -/
def block (s : TokenStream) : Reads (Block Pos) s.length := do
  let ⟨p, inside, ho⟩ ← want (.symbol .lbrace) s
  let ⟨body, afterBody, hb⟩ ← seq inside
  let ⟨close, rest, hc⟩ ← want (.symbol .rbrace) afterBody
  return ⟨.mk p body close, rest, by omega⟩
termination_by 2 * s.length

end

/-- Read a whole stream, in front of which the cursor stands. -/
def program (s : TokenStream) : Driver (Program Pos) := do
  let _ ← move (.before s)
  let ⟨body, rest, _⟩ ← seq s
  match rest with
  | .eof _ => return ⟨s.pos, body⟩
  | rest => refuse (some .eof) rest

end Driver

/-- What a driven reader makes of a stream: the program that it has read, and what has stopped
it. -/
def TokenStream.parsed (s : TokenStream) : Option (Program Pos) × Option Stop :=
  match Driver.program s 0 with
  | .ok p _ => (some p, none)
  | .error stop _ => (none, stop)

end PairDict
