import PairDict.Lexeme
import PairDict.Tree

/-! # The grammar, read from left to right

A program is read off a token stream by recursive descent, looking at one lexeme
at a time:

* a sequence is a statement, and after a `;` another sequence; a `;` may also
  stand at the very end, before the end of the source or a closing brace;
* programs and blocks hold at least one statement;
* the binary operators form five levels, from the comma up to the product, and
  each of them groups to the left;
* one unary operator may stand before an operand, and any number of brackets
  after it.

A node built from a left operand stands where that operand does.  Parentheses
leave no trace.

Reading stops at the **first lexeme that cannot continue a program**.  If the
stream itself has failed there, that failure is the error; otherwise it is a
**parse error**, which names the one token that was expected if there is just
one.  What reads something returns a stream that is shorter than the one it was
given, which is why it comes to an end.
-/
namespace PairDict

/-- A lexeme that does not fit the grammar. -/
structure ParseError where
  /-- The position of the lexeme. -/
  pos : Pos
  /-- The only token that would have fit, if there is one. -/
  expected : Option Token
  /-- The word that was found, or none at the end of the source. -/
  found : Option Word
  deriving DecidableEq, Repr

namespace ParseError

/-- How the expected token is written; empty if there is no single one. -/
def expectedText (e : ParseError) : String := (e.expected.map Token.describe).getD ""

/-- How the word that was found is written. -/
def foundText (e : ParseError) : String := (e.found.map Word.describe).getD Token.eof.text

/-- The error as it is reported. -/
def message (e : ParseError) : String :=
  match e.expected with
  | none => e.pos.text ++ ": unexpected " ++ e.foundText
  | some _ => e.pos.text ++ ": expected " ++ e.expectedText ++ ", found " ++ e.foundText

end ParseError

/-- Why a stream is not a program. -/
inductive SyntaxError where
  /-- The stream fails before the grammar does. -/
  | scan (e : ScanError)
  /-- A lexeme does not fit. -/
  | parse (e : ParseError)
  deriving DecidableEq, Repr

namespace SyntaxError

/-- The error as it is reported. -/
def message : SyntaxError → List UInt8
  | .scan e => e.message
  | .parse e => Utf8.ofString e.message

end SyntaxError

namespace Parser

/-- Something read off the front of a stream: what it is, and a rest of fewer
than `n` lexemes. -/
structure Step (β : Type) (n : Nat) where
  /-- What was read. -/
  value : β
  /-- The stream after it. -/
  rest : TokenStream
  /-- The rest is short. -/
  lt : rest.length < n

/-- The outcome of reading a `β` off a stream of `n - 1` lexemes. -/
abbrev Result (β : Type) (n : Nat) := Except SyntaxError (Step β n)

/-- The error at the front of a stream, where only `expected` would have fit. -/
def reject (expected : Option Token) : TokenStream → SyntaxError
  | .eof p => .parse ⟨p, expected, none⟩
  | .failed e => .scan e
  | .cons l _ => .parse ⟨l.pos, expected, some l.word⟩

/-- Read the word `w`, of which there is only one spelling. -/
def want (w : Word) (s : TokenStream) : Result Pos s.length :=
  match s with
  | .cons l rest => if l.word = w then .ok ⟨l.pos, rest, by simp⟩
      else .error (reject (some w.token) (.cons l rest))
  | s => .error (reject (some w.token) s)

/-- What follows the word `w`, if `w` stands at the front. -/
def got (w : Word) (s : TokenStream) : Option { rest : TokenStream // rest.length < s.length } :=
  match s with
  | .cons l rest => if l.word = w then some ⟨rest, by simp⟩ else none
  | _ => none

/-- Read a name. -/
def ident (s : TokenStream) : Result (Ident Pos) s.length :=
  match s with
  | .cons ⟨.name x, p⟩ rest => .ok ⟨⟨p, x⟩, rest, by simp⟩
  | s => .error (reject (some .name) s)

/-! ## Expressions -/

/-- The unary operators. -/
def isUnary : Word → Bool
  | .symbol .minus | .symbol .bang | .keyword .fst | .keyword .snd => true
  | _ => false

/-- The node of a binary operator, which stands where its left operand does. -/
def combine (op : Token) (x y : Expr Pos) : Expr Pos :=
  if op = .symbol .comma then .pair x.ann x y else .binary x.ann op x y

mutual

/-- Read an expression whose operators bind tighter than `level`. -/
def binary (level : Nat) (s : TokenStream) : Result (Expr Pos) s.length := do
  let ⟨x, rest, h⟩ ← unary s
  let ⟨y, rest', h'⟩ ← binaryTail level x rest
  return ⟨y, rest', by omega⟩
termination_by (s.length, 3)

/-- Continue an expression that started with `x` by further operands. -/
def binaryTail (level : Nat) (x : Expr Pos) (s : TokenStream) :
    Result (Expr Pos) (s.length + 1) :=
  match s with
  | .cons l rest =>
    if level < l.word.token.precedence then do
      let ⟨y, rest', h⟩ ← binary l.word.token.precedence rest
      let ⟨z, rest'', h'⟩ ← binaryTail level (combine l.word.token x y) rest'
      return ⟨z, rest'', by simp; omega⟩
    else return ⟨x, .cons l rest, by omega⟩
  | s => return ⟨x, s, by omega⟩
termination_by (s.length, 0)

/-- Read an operand with at most one operator before it. -/
def unary (s : TokenStream) : Result (Expr Pos) s.length :=
  match s with
  | .cons l rest =>
    if isUnary l.word then do
      let ⟨x, rest', h⟩ ← postfixed rest
      return ⟨.unary l.pos l.word.token x, rest', by simp; omega⟩
    else postfixed (.cons l rest)
  | s => postfixed s
termination_by (s.length, 2)

/-- Read an operand with any number of brackets after it. -/
def postfixed (s : TokenStream) : Result (Expr Pos) s.length := do
  let ⟨x, rest, h⟩ ← operand s
  let ⟨y, rest', h'⟩ ← brackets x rest
  return ⟨y, rest', by omega⟩
termination_by (s.length, 1)

/-- Continue an operand `x` by the brackets after it. -/
def brackets (x : Expr Pos) (s : TokenStream) : Result (Expr Pos) (s.length + 1) :=
  match s with
  | .cons ⟨.symbol .lbrack, _⟩ rest => do
    let ⟨key, afterKey, hk⟩ ← binary 0 rest
    match got (.symbol .colon) afterKey with
    | none => do
      let ⟨_, afterBracket, hb⟩ ← want (.symbol .rbrack) afterKey
      let ⟨y, rest', h'⟩ ← brackets (.select x.ann .get x key) afterBracket
      return ⟨y, rest', by simp; omega⟩
    | some ⟨afterColon, hc⟩ =>
      match got (.symbol .rbrack) afterColon with
      | some ⟨afterBracket, hb⟩ => do
        let ⟨y, rest', h'⟩ ← brackets (.select x.ann .delete x key) afterBracket
        return ⟨y, rest', by simp; omega⟩
      | none => do
        let ⟨value, afterValue, hv⟩ ← binary 0 afterColon
        let ⟨_, afterBracket, hb⟩ ← want (.symbol .rbrack) afterValue
        let ⟨y, rest', h'⟩ ← brackets (.store x.ann .update x key value) afterBracket
        return ⟨y, rest', by simp; omega⟩
  | s => return ⟨x, s, by omega⟩
termination_by (s.length, 0)

/-- Read a dictionary of one entry, a literal, a variable or a parenthesis. -/
def operand (s : TokenStream) : Result (Expr Pos) s.length :=
  match s with
  | .cons ⟨.symbol .lbrack, p⟩ rest => do
    let ⟨key, afterKey, hk⟩ ← binary 0 rest
    let ⟨_, afterColon, hc⟩ ← want (.symbol .colon) afterKey
    let ⟨value, afterValue, hv⟩ ← binary 0 afterColon
    let ⟨_, rest', hb⟩ ← want (.symbol .rbrack) afterValue
    return ⟨.entry p key value, rest', by simp; omega⟩
  | .cons ⟨.bool b, p⟩ rest => return ⟨.bool p b, rest, by simp⟩
  | .cons ⟨.num n, p⟩ rest => return ⟨.int p n, rest, by simp⟩
  | .cons ⟨.name x, p⟩ rest => return ⟨.name p x, rest, by simp⟩
  | .cons ⟨.symbol .lparen, _⟩ rest => do
    let ⟨x, afterExpr, hx⟩ ← binary 0 rest
    let ⟨_, rest', hp⟩ ← want (.symbol .rparen) afterExpr
    return ⟨x, rest', by simp; omega⟩
  | s => .error (reject none s)
termination_by (s.length, 0)

end

/-- Read an expression. -/
def expr (s : TokenStream) : Result (Expr Pos) s.length := binary 0 s

/-- Read an expression in parentheses. -/
def parenthesized (s : TokenStream) : Result (Expr Pos) s.length := do
  let ⟨_, inside, ho⟩ ← want (.symbol .lparen) s
  let ⟨x, afterExpr, hx⟩ ← expr inside
  let ⟨_, rest, hc⟩ ← want (.symbol .rparen) afterExpr
  return ⟨x, rest, by omega⟩

/-! ## Statements -/

/-- Whether a sequence may end at the front of the stream, after a `;`. -/
def endsSeq : TokenStream → Bool
  | .eof _ => true
  | .cons ⟨.symbol .rbrace, _⟩ _ => true
  | _ => false

mutual

/-- Read a sequence of statements. -/
def seq (s : TokenStream) : Result (Seq Pos) s.length := do
  let ⟨first, rest, h⟩ ← stmt s
  match got (.symbol .semi) rest with
  | none => return ⟨.cons s.pos first (.empty rest.pos), rest, h⟩
  | some ⟨rest', h'⟩ =>
    if endsSeq rest' then return ⟨.cons s.pos first (.empty rest'.pos), rest', by omega⟩
    else do
      let ⟨more, rest'', h''⟩ ← seq rest'
      return ⟨.cons s.pos first more, rest'', by omega⟩
termination_by (s.length, 1)

/-- Read a statement. -/
def stmt (s : TokenStream) : Result (Stmt Pos) s.length :=
  match s with
  | .cons ⟨.keyword .varKw, p⟩ rest => do
    let ⟨x, afterName, hn⟩ ← ident rest
    let ⟨_, afterAssign, ha⟩ ← want (.symbol .assign) afterName
    let ⟨value, rest', he⟩ ← expr afterAssign
    return ⟨.var p x value, rest', by simp; omega⟩
  | .cons ⟨.name x, p⟩ rest => do
    let ⟨_, afterAssign, ha⟩ ← want (.symbol .assign) rest
    let ⟨value, rest', he⟩ ← expr afterAssign
    return ⟨.assign p ⟨p, x⟩ value, rest', by simp; omega⟩
  | .cons ⟨.keyword .printKw, p⟩ rest => do
    let ⟨x, rest', he⟩ ← expr rest
    return ⟨.print p x, rest', by simp; omega⟩
  | .cons ⟨.keyword .ifKw, p⟩ rest => do
    let ⟨cond, afterCond, hc⟩ ← parenthesized rest
    let ⟨yes, afterYes, hy⟩ ← block afterCond
    match got (.keyword .elseKw) afterYes with
    | none => return ⟨.ifThen p cond yes, afterYes, by simp; omega⟩
    | some ⟨afterElse, he⟩ => do
      let ⟨no, rest', hn⟩ ← block afterElse
      return ⟨.ifElse p cond yes no, rest', by simp; omega⟩
  | .cons ⟨.keyword .forKw, p⟩ rest => do
    let ⟨_, afterParen, hp⟩ ← want (.symbol .lparen) rest
    let ⟨_, afterVar, hv⟩ ← want (.keyword .varKw) afterParen
    let ⟨x, afterName, hx⟩ ← ident afterVar
    let ⟨_, afterOf, ho⟩ ← want (.keyword .ofKw) afterName
    let ⟨dict, afterDict, hd⟩ ← expr afterOf
    let ⟨_, afterClose, hc⟩ ← want (.symbol .rparen) afterDict
    let ⟨body, rest', hb⟩ ← block afterClose
    return ⟨.forEach p x dict body, rest', by simp; omega⟩
  | s => .error (reject none s)
termination_by (s.length, 0)

/-- Read a block. -/
def block (s : TokenStream) : Result (Block Pos) s.length := do
  let ⟨p, inside, ho⟩ ← want (.symbol .lbrace) s
  let ⟨body, afterBody, hb⟩ ← seq inside
  let ⟨close, rest, hc⟩ ← want (.symbol .rbrace) afterBody
  return ⟨.mk p body close, rest, by omega⟩
termination_by (s.length, 0)

end

end Parser

/-- The program that a token stream spells. -/
def TokenStream.program (s : TokenStream) : Except SyntaxError (Program Pos) := do
  let ⟨body, rest, _⟩ ← Parser.seq s
  match rest with
  | .eof _ => return ⟨s.pos, body⟩
  | rest => throw (Parser.reject (some .eof) rest)

end PairDict
