import PairDict.Lexeme

/-! # Reading lexemes off a source

Between two words stands a **gap**: blanks, and comments from `//` to the end of
the line.  Where a gap ends, the **longest** text that spells a word is taken:

* a letter and the letters, digits and underscores after it;
* a number, which is `0` alone or a digit from 1 on and the digits after it, so
  `007` is three numbers;
* a symbol, of two characters if there is one, of one character otherwise.

A number above 2⁶³ - 1 is rejected as a whole.  Where no word starts, the rest of
the line is rejected.  Each word takes at least one glyph, so reading comes to an
end.
-/
namespace PairDict

namespace Glyph

/-- Whether the glyph is a character of the class `p`. -/
def satisfies (p : Char → Bool) : Glyph → Bool
  | .char c => p c
  | .stray _ => false

end Glyph

namespace Scan

/-- The letters that a name may start with. -/
def isLetter (c : Char) : Bool := ('a' ≤ c && c ≤ 'z') || ('A' ≤ c && c ≤ 'Z')

/-- The decimal digits. -/
def isDigit (c : Char) : Bool := '0' ≤ c && c ≤ '9'

/-- The characters that may continue a name. -/
def isNameChar (c : Char) : Bool := isLetter c || isDigit c || c = '_'

/-- The characters that only separate words. -/
def isBlank (c : Char) : Bool :=
  c = ' ' || c = '\t' || c = '\r' || c = '\n' || c = '\x0c' || c = '\x0b'

/-! ## Gaps -/

/-- The gap at the front of a text and what follows it.  `inside` says that the
text starts within a comment. -/
def splitGap (inside : Bool) : List Glyph → List Glyph × List Glyph
  | [] => ([], [])
  | g :: gs =>
    if inside then
      let (gap, rest) := splitGap (!g.isChar '\n') gs
      (g :: gap, rest)
    else if g.satisfies isBlank then
      let (gap, rest) := splitGap false gs
      (g :: gap, rest)
    else if g.isChar '/' && gs.head? == some (.char '/') then
      let (gap, rest) := splitGap true gs
      (g :: gap, rest)
    else ([], g :: gs)

/-- A gap and what follows it make up the text. -/
theorem splitGap_append (inside : Bool) (gs : List Glyph) :
    (splitGap inside gs).1 ++ (splitGap inside gs).2 = gs := by
  fun_induction splitGap inside gs <;> simp_all

theorem length_splitGap_le (inside : Bool) (gs : List Glyph) :
    (splitGap inside gs).2.length ≤ gs.length := by
  have h := congrArg List.length (splitGap_append inside gs)
  rw [List.length_append] at h
  omega

/-! ## Words -/

/-- What stands at the front of a text. -/
inductive Reading where
  /-- A word, spelled by `text`, and the text after it. -/
  | word (w : Word) (text rest : List Glyph)
  /-- A number above the largest one. -/
  | tooLarge (text : List Glyph)
  /-- Neither. -/
  | nothing
  deriving DecidableEq, Repr

/-- The text that a run of characters spells. -/
def spelling (gs : List Glyph) : List Char := gs.filterMap Glyph.char?

/-- Read a word that starts with the letter `c`. -/
def readLetters (c : Char) (gs : List Glyph) : Reading :=
  let text := .char c :: gs.takeWhile (Glyph.satisfies isNameChar)
  .word (.ofLetters (.ofList (spelling text))) text
    (gs.dropWhile (Glyph.satisfies isNameChar))

/-- The digits that continue a number after its first digit `c`: none after a
zero. -/
def moreDigits (c : Char) (gs : List Glyph) : List Glyph :=
  if c = '0' then [] else gs.takeWhile (Glyph.satisfies isDigit)

/-- What follows the number whose first digit is `c`. -/
def afterDigits (c : Char) (gs : List Glyph) : List Glyph :=
  if c = '0' then gs else gs.dropWhile (Glyph.satisfies isDigit)

/-- Read a number that starts with the digit `c`. -/
def readNumber (c : Char) (gs : List Glyph) : Reading :=
  let text := .char c :: moreDigits c gs
  let n := Nat.ofDigitChars 10 (spelling text) 0
  if n < Nat.pow 2 63 then .word (.num (.ofNat n)) text (afterDigits c gs) else .tooLarge text

/-- Read a symbol of the one character `c`. -/
def readOne (c : Char) (gs : List Glyph) : Reading :=
  match Symbol.ofOne? c with
  | some s => .word (.symbol s) [.char c] gs
  | none => .nothing

/-- Read a symbol that starts with `c`. -/
def readSymbol (c : Char) (gs : List Glyph) : Reading :=
  match gs with
  | .char d :: gs' =>
    match Symbol.ofTwo? c d with
    | some s => .word (.symbol s) [.char c, .char d] gs'
    | none => readOne c gs
  | _ => readOne c gs

/-- Read what stands at the front of a text. -/
def read : List Glyph → Reading
  | .char c :: gs =>
    if isLetter c then readLetters c gs
    else if isDigit c then readNumber c gs
    else readSymbol c gs
  | _ => .nothing

theorem readOne_append {c : Char} {gs text rest : List Glyph} {w : Word}
    (h : readOne c gs = .word w text rest) : text ++ rest = .char c :: gs ∧ text ≠ [] := by
  unfold readOne at h
  split at h <;> simp at h
  obtain ⟨_, rfl, rfl⟩ := h
  simp

theorem readSymbol_append {c : Char} {gs text rest : List Glyph} {w : Word}
    (h : readSymbol c gs = .word w text rest) : text ++ rest = .char c :: gs ∧ text ≠ [] := by
  unfold readSymbol at h
  split at h
  · split at h
    · simp at h
      obtain ⟨_, rfl, rfl⟩ := h
      simp
    · exact readOne_append h
  · exact readOne_append h

theorem readNumber_append {c : Char} {gs text rest : List Glyph} {w : Word}
    (h : readNumber c gs = .word w text rest) : text ++ rest = .char c :: gs ∧ text ≠ [] := by
  simp only [readNumber] at h
  split at h <;> simp at h
  obtain ⟨_, rfl, rfl⟩ := h
  by_cases hc : c = '0' <;> simp [moreDigits, afterDigits, hc]

theorem readLetters_append {c : Char} {gs text rest : List Glyph} {w : Word}
    (h : readLetters c gs = .word w text rest) : text ++ rest = .char c :: gs ∧ text ≠ [] := by
  simp only [readLetters, Reading.word.injEq] at h
  obtain ⟨_, rfl, rfl⟩ := h
  simp

/-- A word takes text off the front, and never none. -/
theorem read_append {gs text rest : List Glyph} {w : Word} (h : read gs = .word w text rest) :
    text ++ rest = gs ∧ text ≠ [] := by
  unfold read at h
  split at h
  · split at h
    · exact readLetters_append h
    · split at h
      · exact readNumber_append h
      · exact readSymbol_append h
  · simp at h

theorem length_rest_lt {gs text rest : List Glyph} {w : Word} (h : read gs = .word w text rest) :
    rest.length < gs.length := by
  obtain ⟨h, hne⟩ := read_append h
  have := List.length_pos_iff.2 hne
  rw [← h, List.length_append]
  omega

/-! ## Streams -/

/-- The front of a text up to the end of its line. -/
def restOfLine (gs : List Glyph) : List Glyph :=
  gs.takeWhile fun g => !g.isChar '\n' && !g.isChar '\r'

/-- The stream of a text whose first glyph stands at `pos`. -/
def streamFrom (pos : Pos) (gs : List Glyph) : TokenStream :=
  let here := pos.advance (splitGap false gs).1
  match _h : read (splitGap false gs).2 with
  | .word w text rest => .cons ⟨w, here⟩ (streamFrom (here.advance text) rest)
  | .tooLarge text => .failed (.lex (.outOfRange here (.ofList (spelling text))))
  | .nothing =>
    match (splitGap false gs).2 with
    | [] => .eof here
    | rest => .failed (.lex (.unrecognized here (restOfLine rest)))
termination_by gs.length
decreasing_by exact Nat.lt_of_lt_of_le (length_rest_lt _h) (length_splitGap_le false gs)

end Scan

/-- A source: its name, the bytes that were delivered, and why no more were, if
they are not all. -/
structure Source where
  /-- The name that positions carry. -/
  name : String
  /-- The bytes that were delivered. -/
  bytes : List UInt8
  /-- Why reading stopped early. -/
  failure : Option String := none
  deriving DecidableEq, Repr

namespace Source

/-- The token stream of a source.  A source that could not be read to its end
holds no lexemes, whatever was delivered of it. -/
def tokens (s : Source) : TokenStream :=
  match s.failure with
  | some cause => .failed (.read s.name cause)
  | none => Scan.streamFrom (.start s.name) (Utf8.decode s.bytes)

end Source

end PairDict
