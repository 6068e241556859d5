import PairDict.Proofs.Lexeme.Pattern

/-! # The longest token is read

What stands at the front of a text is compared with all the tokens that stand there.
`Longest front cs t` says that among the texts of which `front` holds, `cs` is a token,
of the kind `t`, and none of the others that are tokens is longer.

Reading gives a word if the longest token spells one, rejects a number if the longest token
is a number that is too large, and gives nothing only where there is no token at all
(`read_finds`).

The converse needs no proof of its own.  If the text of a word is followed by something
that is in no token, then no token at the front is longer than the word, and reading can
give no other one (`read_spelled`).
-/
namespace PairDict

namespace Scan

/-- The text stands at the front of the glyphs. -/
def Starts (gs : List Glyph) (cs : List Char) : Prop := cs.map Glyph.char <+: gs

/-- Of the texts with `front`, `cs` is the longest that is a token, and `t` is its kind. -/
structure Longest (front : List Char → Prop) (cs : List Char) (t : Token) : Prop where
  /-- It is a token. -/
  pattern : Pattern cs t
  /-- It is one of the texts. -/
  stands : front cs
  /-- No token among them is longer. -/
  max : ∀ {ds u}, Pattern ds u → front ds → ds.length ≤ cs.length

variable {c : Char} {cs ds : List Char} {gs : List Glyph} {p : Char → Bool}

theorem starts_cons_iff : Starts (.char c :: gs) (c :: cs) ↔ Starts gs cs := by
  rw [Starts, Starts, List.map_cons, List.cons_prefix_cons, and_iff_right rfl]

/-- What starts with the character `c` is a text that does. -/
theorem Starts.head {d : Char} (h : Starts (.char c :: gs) (d :: ds)) : d = c ∧ Starts gs ds := by
  rw [Starts, List.map_cons, List.cons_prefix_cons] at h
  exact ⟨Glyph.char.inj h.1, h.2⟩

theorem spelling_map_char (cs : List Char) : spelling (cs.map .char) = cs := by
  rw [spelling, List.filterMap_map]
  exact List.filterMap_some

/-! ## Runs of one class -/

/-- The glyphs of one class at the front are characters. -/
theorem takeWhile_satisfies (p : Char → Bool) (gs : List Glyph) :
    ∃ cs : List Char, gs.takeWhile (Glyph.satisfies p) = cs.map .char ∧ ∀ d ∈ cs, p d = true := by
  induction gs with
  | nil => exact ⟨[], rfl, nofun⟩
  | cons g gs ih =>
    cases g with
    | stray b => exact ⟨[], rfl, nofun⟩
    | char c =>
      by_cases hc : p c = true
      · obtain ⟨cs, hcs, hp⟩ := ih
        refine ⟨c :: cs, ?_, List.forall_mem_cons.2 ⟨hc, hp⟩⟩
        rw [List.takeWhile_cons_of_pos (show Glyph.satisfies p (.char c) = true from hc), hcs,
          List.map_cons]
      · refine ⟨[], ?_, nofun⟩
        rw [List.takeWhile_cons_of_neg (show ¬ Glyph.satisfies p (.char c) = true from hc)]
        rfl

/-- No run of a class reaches further than the one that is taken. -/
theorem length_le_of_takeWhile (h : gs.takeWhile (Glyph.satisfies p) = cs.map .char)
    (hds : Starts gs ds) (hp : ∀ d ∈ ds, p d = true) : ds.length ≤ cs.length := by
  obtain ⟨rest, rfl⟩ := hds
  have hall : ∀ g ∈ ds.map Glyph.char, Glyph.satisfies p g = true := by
    intro g hg
    obtain ⟨d, hd, rfl⟩ := List.mem_map.1 hg
    exact hp d hd
  rw [List.takeWhile_append_of_pos hall] at h
  have hlen := congrArg List.length h
  rw [List.length_append, List.length_map, List.length_map] at hlen
  omega

theorem starts_of_takeWhile (h : gs.takeWhile (Glyph.satisfies p) = cs.map .char) :
    Starts gs cs := by
  rw [Starts, ← h]
  exact List.takeWhile_prefix _

/-! ## The three kinds of readers -/

/-- Where a letter stands, the longest token is that letter with all letters, digits and
underscores after it. -/
theorem longest_letters (hc : isLetter c = true)
    (h : gs.takeWhile (Glyph.satisfies isNameChar) = cs.map .char)
    (hcs : ∀ d ∈ cs, isNameChar d = true) :
    Longest (Starts (.char c :: gs)) (c :: cs) (Word.ofLetters (.ofList (c :: cs))).token where
  pattern := pattern_ofLetters hc hcs
  stands := starts_cons_iff.2 (starts_of_takeWhile h)
  max hp hfront := by
    obtain ⟨d, ds, rfl, hs⟩ := hp.shape
    obtain ⟨rfl, hds⟩ := hfront.head
    cases hs with
    | letters _ hall => exact Nat.succ_le_succ (length_le_of_takeWhile h hds hall)
    | zero hz => exact absurd hc (hz ▸ by decide)
    | number hd => exact absurd hd (Bool.eq_false_iff.1 (isDigit_of_isLetter hc))
    | symbol y hl => exact absurd hc (Bool.eq_false_iff.1 hl)

/-- Where a digit stands, the longest token is a number. -/
theorem longest_digits (hc : isDigit c = true) (gs : List Glyph) :
    ∃ cs : List Char, moreDigits c gs = cs.map .char ∧
      Longest (Starts (.char c :: gs)) (c :: cs) .num := by
  by_cases h0 : c = '0'
  · refine ⟨[], if_pos h0, h0 ▸ .zero, starts_cons_iff.2 (List.nil_prefix), ?_⟩
    intro ds u hp hfront
    obtain ⟨d, ds, rfl, hs⟩ := hp.shape
    obtain ⟨rfl, hds⟩ := hfront.head
    cases hs with
    | letters hl => exact absurd hl (h0 ▸ by decide)
    | zero _ hnil => exact hnil ▸ Nat.le_refl _
    | number _ hne => exact absurd h0 hne
    | symbol y _ hd => exact absurd hc (Bool.eq_false_iff.1 hd)
  · obtain ⟨cs, htake, hcs⟩ := takeWhile_satisfies isDigit gs
    refine ⟨cs, (if_neg h0).trans htake, .number hc h0 hcs,
      starts_cons_iff.2 (starts_of_takeWhile htake), ?_⟩
    intro ds u hp hfront
    obtain ⟨d, ds, rfl, hs⟩ := hp.shape
    obtain ⟨rfl, hds⟩ := hfront.head
    cases hs with
    | letters hl => exact absurd hc (Bool.eq_false_iff.1 (isDigit_of_isLetter hl))
    | zero hz => exact absurd hz h0
    | number _ _ hall => exact Nat.succ_le_succ (length_le_of_takeWhile htake hds hall)
    | symbol y _ hd => exact absurd hc (Bool.eq_false_iff.1 hd)

/-- Where neither stands, all tokens are symbols. -/
theorem Pattern.symbol_of_starts (hl : isLetter c = false) (hd : isDigit c = false) {t : Token}
    (hp : Pattern ds t) (hfront : Starts (.char c :: gs) ds) :
    ∃ y : Symbol, t = .symbol y ∧ y.text.toList = ds := by
  obtain ⟨d, ds, rfl, hs⟩ := hp.shape
  obtain ⟨rfl, -⟩ := hfront.head
  cases hs with
  | letters hc => exact absurd hc (Bool.eq_false_iff.1 hl)
  | zero hz => exact absurd hd (hz ▸ by decide)
  | number hc => exact absurd hc (Bool.eq_false_iff.1 hd)
  | symbol y _ _ htext ht => exact ⟨y, ht, htext⟩

/-- A symbol of two characters is the longest token where it stands. -/
theorem longest_two (hl : isLetter c = false) (hd : isDigit c = false) {d : Char} {y : Symbol}
    (h : Symbol.ofTwo? c d = some y) :
    Longest (Starts (.char c :: .char d :: gs)) y.text.toList (.symbol y) where
  pattern := .symbol y
  stands := by
    rw [Symbol.ofTwo?_eq_some_iff.1 h]
    exact ⟨gs, rfl⟩
  max hp hfront := by
    obtain ⟨y', -, rfl⟩ := hp.symbol_of_starts hl hd hfront
    rw [Symbol.ofTwo?_eq_some_iff.1 h]
    rcases y'.text_cases with ⟨e, he⟩ | ⟨e, e', he⟩ <;> rw [he]
    · exact Nat.le_succ 1
    · exact Nat.le_refl 2

/-- A text of two characters stands where its characters stand. -/
theorem ofTwo?_of_starts {e e' : Char} {y : Symbol} (he : y.text.toList = [e, e'])
    (hfront : Starts (.char c :: gs) [e, e']) :
    ∃ gs', gs = .char e' :: gs' ∧ Symbol.ofTwo? c e' = some y := by
  obtain ⟨rfl, gs', rfl⟩ := hfront.head
  exact ⟨gs', rfl, Symbol.ofTwo?_eq_some_iff.2 he⟩

/-- A symbol of one character is the longest token unless one of two characters stands
there. -/
theorem longest_one (hl : isLetter c = false) (hd : isDigit c = false)
    (htwo : ∀ d gs', gs = .char d :: gs' → Symbol.ofTwo? c d = none) {y : Symbol}
    (h : Symbol.ofOne? c = some y) :
    Longest (Starts (.char c :: gs)) y.text.toList (.symbol y) where
  pattern := .symbol y
  stands := by
    rw [Symbol.ofOne?_eq_some_iff.1 h]
    exact ⟨gs, rfl⟩
  max hp hfront := by
    obtain ⟨y', -, rfl⟩ := hp.symbol_of_starts hl hd hfront
    rw [Symbol.ofOne?_eq_some_iff.1 h]
    rcases y'.text_cases with ⟨e, he⟩ | ⟨e, e', he⟩
    · exact he ▸ Nat.le_refl 1
    · obtain ⟨gs', rfl, hsome⟩ := ofTwo?_of_starts he (he ▸ hfront)
      rw [htwo e' gs' rfl] at hsome
      cases hsome

/-- Without a symbol there is no token. -/
theorem not_starts_of_no_symbol (hl : isLetter c = false) (hd : isDigit c = false)
    (htwo : ∀ d gs', gs = .char d :: gs' → Symbol.ofTwo? c d = none)
    (hone : Symbol.ofOne? c = none) {t : Token} (hp : Pattern ds t) :
    ¬ Starts (.char c :: gs) ds := by
  intro hfront
  obtain ⟨y, -, rfl⟩ := hp.symbol_of_starts hl hd hfront
  rcases y.text_cases with ⟨e, he⟩ | ⟨e, e', he⟩
  · rw [he] at hfront
    obtain ⟨rfl, -⟩ := hfront.head
    rw [Symbol.ofOne?_eq_some_iff.2 he] at hone
    cases hone
  · obtain ⟨gs', rfl, hsome⟩ := ofTwo?_of_starts he (he ▸ hfront)
    rw [htwo e' gs' rfl] at hsome
    cases hsome

/-! ## What is read -/

/-- What reading finds out about the tokens at the front of a text. -/
inductive Finds (front : List Char → Prop) : Reading → Prop where
  | word {w rest} : Longest front w.literal.toList w.token →
      Finds front (.word w (w.literal.toList.map .char) rest)
  | tooLarge {cs : List Char} : Longest front cs .num → Nat.pow 2 63 ≤ Nat.ofDigitChars 10 cs 0 →
      Finds front (.tooLarge (cs.map .char))
  | nothing : (∀ cs t, Pattern cs t → ¬ front cs) → Finds front .nothing

/-- A word whose text is the longest token is found. -/
theorem Longest.finds {front : List Char → Prop} {w : Word} (h : Longest front cs w.token)
    (hw : w.literal.toList = cs) (rest : List Glyph) :
    Finds front (.word w (cs.map .char) rest) := by
  subst hw
  exact .word h

theorem readLetters_finds (hc : isLetter c = true) (gs : List Glyph) :
    Finds (Starts (.char c :: gs)) (readLetters c gs) := by
  obtain ⟨cs, htake, hcs⟩ := takeWhile_satisfies isNameChar gs
  have hlongest := longest_letters hc htake hcs
  have htext : Glyph.char c :: gs.takeWhile (Glyph.satisfies isNameChar) =
      (c :: cs).map .char := by
    rw [htake, List.map_cons]
  have hliteral : (Word.ofLetters (.ofList (c :: cs))).literal.toList = c :: cs := by
    rw [Word.literal_ofLetters, String.toList_ofList]
  simp only [readLetters, htext, spelling_map_char]
  exact hlongest.finds hliteral _

theorem readNumber_finds (hc : isDigit c = true) (gs : List Glyph) :
    Finds (Starts (.char c :: gs)) (readNumber c gs) := by
  obtain ⟨cs, hmore, hlongest⟩ := longest_digits hc gs
  have htext : Glyph.char c :: moreDigits c gs = (c :: cs).map .char := by
    rw [hmore, List.map_cons]
  simp only [readNumber, htext, spelling_map_char]
  split
  · next hlt =>
    have hliteral :
        (Word.num (.ofNat (Nat.ofDigitChars 10 (c :: cs) 0))).literal.toList = c :: cs := by
      rw [Word.literal_num hlt, hlongest.pattern.toDigits_ofDigitChars]
    exact Longest.finds hlongest hliteral _
  · next hge => exact .tooLarge hlongest (Nat.le_of_not_lt hge)

theorem readOne_finds (hl : isLetter c = false) (hd : isDigit c = false)
    (htwo : ∀ d gs', gs = .char d :: gs' → Symbol.ofTwo? c d = none) :
    Finds (Starts (.char c :: gs)) (readOne c gs) := by
  unfold readOne
  split
  · next y hy =>
    have htext : y.text.toList = [c] := Symbol.ofOne?_eq_some_iff.1 hy
    exact Longest.finds (w := .symbol y) (htext ▸ longest_one hl hd htwo hy) htext gs
  · next hnone => exact .nothing fun cs t hp => not_starts_of_no_symbol hl hd htwo hnone hp

theorem readSymbol_finds (hl : isLetter c = false) (hd : isDigit c = false) (gs : List Glyph) :
    Finds (Starts (.char c :: gs)) (readSymbol c gs) := by
  unfold readSymbol
  split
  · next d gs' =>
    split
    · next y hy =>
      have htext : y.text.toList = [c, d] := Symbol.ofTwo?_eq_some_iff.1 hy
      exact Longest.finds (w := .symbol y) (htext ▸ longest_two hl hd hy) htext gs'
    · next hnone =>
      refine readOne_finds hl hd ?_
      rintro _ _ ⟨⟩
      exact hnone
  · next hne => exact readOne_finds hl hd fun d gs' h => absurd h (hne d gs')

/-- **Reading finds the longest token.** -/
theorem read_finds (gs : List Glyph) : Finds (Starts gs) (read gs) := by
  unfold read
  split
  · next c gs =>
    split
    · next hc => exact readLetters_finds hc gs
    · next hc =>
      split
      · next hd => exact readNumber_finds hd gs
      · next hd => exact readSymbol_finds (Bool.eq_false_iff.2 hc) (Bool.eq_false_iff.2 hd) gs
  · next hne =>
    -- a token starts with a character
    refine .nothing fun cs t hp hfront => ?_
    obtain ⟨d, ds, rfl, -⟩ := hp.shape
    obtain ⟨rest, rfl⟩ := hfront
    exact hne d _ rfl

/-! ## What is spelled is read -/

/-- No token reaches into these glyphs: they start with none of its characters. -/
def Ends (gs : List Glyph) : Prop :=
  ∀ c gs', gs = .char c :: gs' → isBlank c = true ∨ c = '/'

theorem Pattern.le_of_starts_append {t : Token} (hp : Pattern ds t)
    (hfront : Starts (cs.map .char ++ gs) ds) (hgs : Ends gs) : ds.length ≤ cs.length := by
  refine Nat.le_of_not_lt fun hlt => ?_
  obtain ⟨rest, hrest⟩ := hfront
  -- the token would go on behind `cs`, with the first character of `gs`
  have hcs : cs.map Glyph.char <+: ds.map .char := by
    have hcs : cs.map Glyph.char <+: cs.map .char ++ gs := List.prefix_append _ _
    refine List.prefix_of_prefix_length_le hcs ⟨rest, hrest⟩ ?_
    rw [List.length_map, List.length_map]
    exact Nat.le_of_lt hlt
  obtain ⟨more, hmore⟩ := hcs
  rw [← hmore, List.append_assoc, List.append_cancel_left_eq] at hrest
  cases more with
  | nil =>
    have hlen := congrArg List.length hmore
    rw [List.append_nil, List.length_map, List.length_map] at hlen
    omega
  | cons g more =>
    have hg : g ∈ ds.map Glyph.char := by
      rw [← hmore]
      exact List.mem_append_right _ List.mem_cons_self
    obtain ⟨d, hd, rfl⟩ := List.mem_map.1 hg
    obtain ⟨hblank, hslash⟩ := hp.plain d hd
    rcases hgs d _ hrest.symm with h | h
    · rw [hblank] at h
      cases h
    · exact hslash h

/-- **A word is read where it is spelled and no token goes on.** -/
theorem read_spelled {w : Word} (hw : w.Spellable) (hgs : Ends gs) :
    read (w.literal.toList.map .char ++ gs) = .word w (w.literal.toList.map .char) gs := by
  have hstarts : Starts (w.literal.toList.map .char ++ gs) w.literal.toList :=
    List.prefix_append _ _
  have hfinds := read_finds (w.literal.toList.map .char ++ gs)
  -- the longest token starts with the text of `w`, and is no longer
  have hlongest : ∀ {cs t}, Longest (Starts (w.literal.toList.map .char ++ gs)) cs t →
      cs = w.literal.toList := by
    intro cs t h
    have hlen : cs.length = w.literal.toList.length :=
      Nat.le_antisymm (h.pattern.le_of_starts_append h.stands hgs) (h.max hw.pattern hstarts)
    have hmap : cs.map Glyph.char = w.literal.toList.map .char := by
      refine List.IsPrefix.eq_of_length (List.prefix_of_prefix_length_le h.stands hstarts ?_) ?_
      · exact Nat.le_of_eq (by rw [List.length_map, List.length_map, hlen])
      · rw [List.length_map, List.length_map, hlen]
    rw [← spelling_map_char cs, hmap, spelling_map_char]
  cases hread : read (w.literal.toList.map .char ++ gs) with
  | word w' text rest =>
    rw [hread] at hfinds
    cases hfinds with
    | word h =>
      have heq : w' = w := Word.eq_of_literal_eq (Word.spellable_iff_pattern.2 h.pattern) hw
        (String.toList_inj.1 (hlongest h))
      have happend := (read_append hread).1
      rw [heq, List.append_cancel_left_eq] at happend
      rw [heq, happend]
  | tooLarge text =>
    rw [hread] at hfinds
    cases hfinds with
    | @tooLarge cs h hlarge =>
      -- the word would be a number, and numbers are small
      have hcs := hlongest h
      have htoken : w.token = .num := hw.pattern.det (hcs ▸ h.pattern)
      cases w with
      | num n =>
        rw [hcs, Word.literal_num_of_nonneg hw, Nat.ofDigitChars_ten_toDigits] at hlarge
        have hlt : n.toInt < 9223372036854775808 := Int64.toInt_lt n
        have hpow : Nat.pow 2 63 = 9223372036854775808 := rfl
        omega
      | _ => cases htoken
  | nothing =>
    rw [hread] at hfinds
    cases hfinds with
    | nothing h => exact absurd hstarts (h _ _ hw.pattern)

end Scan

end PairDict
