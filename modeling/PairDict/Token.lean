/-! # Tokens

The vocabulary of the language.  A **token** is a kind of lexical unit; a
**word** is a unit together with what it carries, so a name carries its
spelling, a number its value and a truth value its value.  Every word has one
token and one spelling (its *literal*).

Tokens are numbered, and the numbering is open above: a number that no kind has
is an `unassigned` token.  Trees that are put together by hand may name any
token as an operator, so the operators of a tree are tokens and not a smaller
type.
-/
namespace PairDict

/-- The punctuation of the language. -/
inductive Symbol where
  | andAnd | assign | rbrace | rparen | rbrack | eql | minus | bang
  | lbrace | lparen | lbrack | comma | plus | semi | colon | star
  deriving DecidableEq, Repr, Inhabited

namespace Symbol

/-- Every symbol, in the order of their numbers. -/
def all : List Symbol :=
  [.andAnd, .assign, .rbrace, .rparen, .rbrack, .eql, .minus, .bang,
   .lbrace, .lparen, .lbrack, .comma, .plus, .semi, .colon, .star]

/-- The spelling of a symbol. -/
def text : Symbol → String
  | .andAnd => "&&"
  | .assign => "="
  | .rbrace => "\x7d"
  | .rparen => ")"
  | .rbrack => "]"
  | .eql => "=="
  | .minus => "-"
  | .bang => "!"
  | .lbrace => "\x7b"
  | .lparen => "("
  | .lbrack => "["
  | .comma => ","
  | .plus => "+"
  | .semi => ";"
  | .colon => ":"
  | .star => "*"

/-- The symbol of two characters. -/
def ofTwo? : Char → Char → Option Symbol
  | '&', '&' => some .andAnd
  | '=', '=' => some .eql
  | _, _ => none

/-- The symbol of one character. -/
def ofOne? : Char → Option Symbol
  | '=' => some .assign
  | '\x7d' => some .rbrace
  | ')' => some .rparen
  | ']' => some .rbrack
  | '-' => some .minus
  | '!' => some .bang
  | '\x7b' => some .lbrace
  | '(' => some .lparen
  | '[' => some .lbrack
  | ',' => some .comma
  | '+' => some .plus
  | ';' => some .semi
  | ':' => some .colon
  | '*' => some .star
  | _ => none

end Symbol

/-- The reserved words of the language, the two truth values apart. -/
inductive Keyword where
  | elseKw | fst | ifKw | printKw | snd | varKw | forKw | ofKw
  deriving DecidableEq, Repr, Inhabited

namespace Keyword

/-- Every keyword, in the order of their numbers. -/
def all : List Keyword :=
  [.elseKw, .fst, .ifKw, .printKw, .snd, .varKw, .forKw, .ofKw]

/-- The spelling of a keyword. -/
def text : Keyword → String
  | .elseKw => "else"
  | .fst => "fst"
  | .ifKw => "if"
  | .printKw => "print"
  | .snd => "snd"
  | .varKw => "var"
  | .forKw => "for"
  | .ofKw => "of"

/-- The keyword of a spelling. -/
def ofText? (s : String) : Option Keyword := all.find? (·.text = s)

end Keyword

/-- A kind of lexical unit. -/
inductive Token where
  /-- The end of the source. -/
  | eof
  /-- A place where the source holds no token. -/
  | error
  /-- A name of a variable. -/
  | name
  /-- A natural number. -/
  | num
  /-- A truth value. -/
  | bool
  /-- A piece of punctuation. -/
  | symbol (s : Symbol)
  /-- A reserved word. -/
  | keyword (k : Keyword)
  /-- A number that no kind of token has. -/
  | unassigned (code : Nat)
  deriving DecidableEq, Repr, Inhabited

namespace Token

/-- The kinds of token that a number stands for, in order. -/
def all : List Token :=
  [.eof, .error, .name, .num, .bool] ++ Symbol.all.map .symbol ++ Keyword.all.map .keyword

/-- The token of a number. -/
def ofCode (n : Nat) : Token := (all[n]?).getD (.unassigned n)

/-- How a token is written. -/
def text : Token → String
  | .eof => "EOF"
  | .error => "ERROR"
  | .name => "NAME"
  | .num => "NUM"
  | .bool => "BOOL"
  | .symbol s => s.text
  | .keyword k => k.text
  | .unassigned n => "token(" ++ toString n ++ ")"

/-- The numbered token that is written as `s`. -/
def ofText? (s : String) : Option Token := all.find? (·.text = s)

/-- Whether the token is punctuation. -/
def isSymbol : Token → Bool
  | .symbol _ => true
  | _ => false

/-- Whether the token is a reserved word.  The truth values have a kind of their
own and are not counted. -/
def isKeyword : Token → Bool
  | .keyword _ => true
  | _ => false

/-- Whether words of this kind carry a value. -/
def isLiteral : Token → Bool
  | .num | .bool => true
  | _ => false

/-- How tightly a binary operator binds: from the comma, which builds pairs, up
to the product.  Other tokens bind nothing and have level zero. -/
def precedence : Token → Nat
  | .symbol .comma => 1
  | .symbol .andAnd => 2
  | .symbol .eql => 3
  | .symbol .plus => 4
  | .symbol .star => 5
  | _ => 0

/-- How an error message refers to a kind of token: fixed spellings are
quoted. -/
def describe : Token → String
  | .symbol s => "\"" ++ s.text ++ "\""
  | .keyword k => "\"" ++ k.text ++ "\""
  | t => t.text

end Token

/-- A lexical unit with what it carries. -/
inductive Word where
  /-- A name of a variable. -/
  | name (s : String)
  /-- A number; the source spells only numbers from 0 to 2⁶³ - 1. -/
  | num (n : Int64)
  /-- A truth value. -/
  | bool (b : Bool)
  /-- A piece of punctuation. -/
  | symbol (s : Symbol)
  /-- A reserved word. -/
  | keyword (k : Keyword)
  deriving DecidableEq, Repr, Inhabited

namespace Word

/-- The kind of a word. -/
def token : Word → Token
  | .name _ => .name
  | .num _ => .num
  | .bool _ => .bool
  | .symbol s => .symbol s
  | .keyword k => .keyword k

/-- The spelling of a word. -/
def literal : Word → String
  | .name s => s
  | .num n => toString n.toInt
  | .bool true => "true"
  | .bool false => "false"
  | .symbol s => s.text
  | .keyword k => k.text

/-- The word of a run of letters, digits and underscores: a truth value, a
reserved word, or else a name. -/
def ofLetters (s : String) : Word :=
  if s = "true" then .bool true
  else if s = "false" then .bool false
  else match Keyword.ofText? s with
    | some k => .keyword k
    | none => .name s

/-- How an error message refers to a word: by its kind and spelling if the kind
has many spellings, and quoted if it has one. -/
def describe (w : Word) : String :=
  match w with
  | .name _ | .num _ | .bool _ => w.token.text ++ " " ++ w.literal
  | .symbol _ | .keyword _ => w.token.describe

end Word

end PairDict
