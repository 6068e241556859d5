/-! # What is wrong with a document

A document that cannot be read has one **problem**: a cause, and the line where it
shows, unless that is the first line, which goes without saying.

A cause belongs to one of four stages.  Bytes have to be characters, characters
have to be tokens, tokens have to be a tree of nodes, and a node has to be what its
tag says.  The line of a problem with tokens or nodes is that of the construct
which was begun, and if that is the first line, that of the place where reading
stopped.
-/
namespace PairDict.Yaml

/-- Why a document cannot be read. -/
inductive Cause where
  /-- The bytes cannot be delivered. -/
  | unreadable (reason : String)
  /-- A byte that starts no character. -/
  | leadingOctet
  /-- A character that is cut short by the end. -/
  | incompleteOctets
  /-- A byte that continues no character where one has to go on. -/
  | trailingOctet
  /-- A character that is spelled with too many bytes. -/
  | octetLength
  /-- A code that is no character. -/
  | notCharacter
  /-- A unit of 16 bits that is cut short by the end. -/
  | incompleteUnit
  /-- The second half of a pair of units without the first. -/
  | lowSurrogate
  /-- The first half of a pair of units at the end. -/
  | incompletePair
  /-- The first half of a pair of units without the second. -/
  | noLowSurrogate
  /-- A character that may not stand in a document. -/
  | controlCharacter
  /-- Nothing can start with this character. -/
  | noToken
  /-- A line that has to be a key has no colon. -/
  | missingColon
  /-- A `-` where no list can start. -/
  | misplacedEntry
  /-- A `?` where no key can start. -/
  | misplacedKey
  /-- A `:` where no value can start. -/
  | misplacedValue
  /-- Brackets are nested too deeply. -/
  | tooDeep
  /-- A directive without a name. -/
  | noDirectiveName
  /-- A directive whose name does not end. -/
  | badDirectiveName
  /-- A directive that is none. -/
  | unknownDirective
  /-- A version without a number. -/
  | noVersion
  /-- A version number that is too long. -/
  | longVersion
  /-- A version without a point. -/
  | noVersionPoint
  /-- More on a line than there should be. -/
  | noLineEnd
  /-- A tag directive without a blank between its parts. -/
  | noBlank
  /-- A tag that does not end. -/
  | noBlankOrLineEnd
  /-- A handle without its exclamation mark. -/
  | noExclamation
  /-- A tag without a name. -/
  | noTagName
  /-- A tag in angle brackets that are not closed. -/
  | noAngle
  /-- A per cent sign without two digits. -/
  | noEscapedOctet
  /-- An escaped byte that starts no character. -/
  | badLeadingEscape
  /-- An escaped byte that continues no character. -/
  | badTrailingEscape
  /-- An anchor or an alias without a name. -/
  | noAnchorName
  /-- An indentation of zero for a block of text. -/
  | zeroIndentation
  /-- A tab in the indentation of a block of text. -/
  | tabInBlock
  /-- A tab in the indentation of a plain scalar. -/
  | tabInPlain
  /-- The mark of a document inside quotes. -/
  | markInQuotes
  /-- Quotes that are not closed. -/
  | openQuotes
  /-- A backslash before a character that it does not escape. -/
  | unknownEscape
  /-- An escape without its digits. -/
  | noHexDigit
  /-- An escape whose code is no character. -/
  | badEscapeCode
  /-- Nothing where a node has to be. -/
  | noContent
  /-- Something else than an element in a list. -/
  | noListEntry
  /-- Something else than a key in a mapping. -/
  | noMapKey
  /-- Something else than a comma in brackets. -/
  | noSeqComma
  /-- Something else than a comma in braces. -/
  | noMapComma
  /-- Directives that no document follows. -/
  | noDocumentStart
  /-- A second version. -/
  | secondVersion
  /-- A version that is not understood. -/
  | otherVersion
  /-- A second directive for one handle. -/
  | secondHandle
  /-- A handle that stands for nothing. -/
  | unknownHandle
  /-- An alias of nothing. -/
  | unknownAnchor (name : String)
  /-- A node that would have to hold itself. -/
  | holdsItself (name : String)
  /-- A scalar that is not what its tag says. -/
  | badTag (found text wanted : String)
  /-- A scalar that its tag calls encoded, and is not. -/
  | badEncoding
  /-- A merge of something that is no mapping. -/
  | badMerge
  /-- Nearly all of a long document comes from aliases. -/
  | tooManyAliases
  deriving DecidableEq, Repr

/-- How a cause is reported. -/
def Cause.text : Cause → String
  | .unreadable reason => "input error: " ++ reason
  | .leadingOctet => "invalid leading UTF-8 octet"
  | .incompleteOctets => "incomplete UTF-8 octet sequence"
  | .trailingOctet => "invalid trailing UTF-8 octet"
  | .octetLength => "invalid length of a UTF-8 sequence"
  | .notCharacter => "invalid Unicode character"
  | .incompleteUnit => "incomplete UTF-16 character"
  | .lowSurrogate => "unexpected low surrogate area"
  | .incompletePair => "incomplete UTF-16 surrogate pair"
  | .noLowSurrogate => "expected low surrogate area"
  | .controlCharacter => "control characters are not allowed"
  | .noToken => "found character that cannot start any token"
  | .missingColon => "could not find expected ':'"
  | .misplacedEntry => "block sequence entries are not allowed in this context"
  | .misplacedKey => "mapping keys are not allowed in this context"
  | .misplacedValue => "mapping values are not allowed in this context"
  | .tooDeep => "exceeded max depth of 10000"
  | .noDirectiveName => "could not find expected directive name"
  | .badDirectiveName => "found unexpected non-alphabetical character"
  | .unknownDirective => "found unknown directive name"
  | .noVersion => "did not find expected version number"
  | .longVersion => "found extremely long version number"
  | .noVersionPoint => "did not find expected digit or '.' character"
  | .noLineEnd => "did not find expected comment or line break"
  | .noBlank => "did not find expected whitespace"
  | .noBlankOrLineEnd => "did not find expected whitespace or line break"
  | .noExclamation => "did not find expected '!'"
  | .noTagName => "did not find expected tag URI"
  | .noAngle => "did not find the expected '>'"
  | .noEscapedOctet => "did not find URI escaped octet"
  | .badLeadingEscape => "found an incorrect leading UTF-8 octet"
  | .badTrailingEscape => "found an incorrect trailing UTF-8 octet"
  | .noAnchorName => "did not find expected alphabetic or numeric character"
  | .zeroIndentation => "found an indentation indicator equal to 0"
  | .tabInBlock => "found a tab character where an indentation space is expected"
  | .tabInPlain => "found a tab character that violates indentation"
  | .markInQuotes => "found unexpected document indicator"
  | .openQuotes => "found unexpected end of stream"
  | .unknownEscape => "found unknown escape character"
  | .noHexDigit => "did not find expected hexdecimal number"
  | .badEscapeCode => "found invalid Unicode character escape code"
  | .noContent => "did not find expected node content"
  | .noListEntry => "did not find expected '-' indicator"
  | .noMapKey => "did not find expected key"
  | .noSeqComma => "did not find expected ',' or ']'"
  | .noMapComma => "did not find expected ',' or '\x7d'"
  | .noDocumentStart => "did not find expected <document start>"
  | .secondVersion => "found duplicate %YAML directive"
  | .otherVersion => "found incompatible YAML document"
  | .secondHandle => "found duplicate %TAG directive"
  | .unknownHandle => "found undefined tag handle"
  | .unknownAnchor name => "unknown anchor '" ++ name ++ "' referenced"
  | .holdsItself name => "anchor '" ++ name ++ "' value contains itself"
  | .badTag found text wanted => "cannot decode " ++ found ++ " `" ++ text ++ "` as a " ++ wanted
  | .badEncoding => "!!binary value contains invalid base64 data"
  | .badMerge => "map merge requires map or sequence of maps as the value"
  | .tooManyAliases => "document contains excessive aliasing"

/-- A cause and the line that is shown with it; zero if none is. -/
structure Problem where
  /-- What is wrong. -/
  cause : Cause
  /-- The line that is shown. -/
  line : Nat := 0
  deriving DecidableEq, Repr

namespace Problem

/-- The problem as it is reported. -/
def text (p : Problem) : String :=
  "yaml: " ++ (if p.line = 0 then "" else "line " ++ toString p.line ++ ": ") ++ p.cause.text

/-- A problem with a token that was begun on the line `begun` and goes wrong on the
line `here`, lines being counted from zero. -/
def ofToken (cause : Cause) (begun here : Nat) : Problem :=
  ⟨cause, if begun ≠ 0 then begun + 1 else if here ≠ 0 then here + 1 else 0⟩

/-- A problem with a node that was begun on the line `begun` and goes wrong on the
line `here`.  The line is shown as it is counted from zero. -/
def ofNode (cause : Cause) (begun here : Nat) : Problem :=
  ⟨cause, if begun ≠ 0 then begun else here⟩

end Problem

end PairDict.Yaml
