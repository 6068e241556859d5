import PairDict.Lexeme.Scan

/-! # The texts of tokens

Which texts are tokens, said without a reader.  `Pattern cs t` means that the text `cs`
is a token of the kind `t`: a symbol or a keyword is its own spelling, a truth value one
of two words, a name a letter with letters, digits and underscores after it that is none
of these, and a number is `0` or a digit from 1 on with digits after it.

A text has at most one kind (`Pattern.det`), and its kind can be told from its first
character: a letter, a digit, or neither (`Pattern.shape`).  Every word is spelled by a
text of its kind if it is `Spellable` (`Word.Spellable.pattern`), and a text and its kind
determine the word (`Word.eq_of_literal_eq`).
-/
namespace PairDict

namespace Scan

/-- The words that are no names. -/
def reserved : List String := ["true", "false"] ++ Keyword.all.map Keyword.text

/-- The text `cs` is a token of the kind `t`. -/
inductive Pattern : List Char → Token → Prop where
  | symbol (y : Symbol) : Pattern y.text.toList (.symbol y)
  | keyword (k : Keyword) : Pattern k.text.toList (.keyword k)
  | bool (b : Bool) : Pattern (Word.bool b).literal.toList .bool
  | name {c cs} : isLetter c = true → (∀ d ∈ cs, isNameChar d = true) →
      String.ofList (c :: cs) ∉ reserved → Pattern (c :: cs) .name
  | zero : Pattern ['0'] .num
  | number {c cs} : isDigit c = true → c ≠ '0' → (∀ d ∈ cs, isDigit d = true) →
      Pattern (c :: cs) .num

/-! ## Symbols -/

end Scan

namespace Symbol

theorem ofOne?_eq_some_iff {c : Char} {y : Symbol} : ofOne? c = some y ↔ y.text.toList = [c] := by
  constructor
  · intro h
    unfold ofOne? at h
    split at h <;> cases h <;> rfl
  · intro h
    cases y <;> cases h <;> rfl

theorem ofTwo?_eq_some_iff {c d : Char} {y : Symbol} :
    ofTwo? c d = some y ↔ y.text.toList = [c, d] := by
  constructor
  · intro h
    unfold ofTwo? at h
    split at h <;> cases h <;> rfl
  · intro h
    cases y <;> cases h <;> rfl

theorem text_cases (y : Symbol) :
    (∃ c, y.text.toList = [c]) ∨ ∃ c d, y.text.toList = [c, d] := by
  cases y with
  | andAnd => exact .inr ⟨'&', '&', rfl⟩
  | eql => exact .inr ⟨'=', '=', rfl⟩
  | _ => exact .inl ⟨_, rfl⟩

theorem text_injective {y y' : Symbol} (h : y.text.toList = y'.text.toList) : y = y' := by
  rcases y.text_cases with ⟨c, hc⟩ | ⟨c, d, hc⟩
  · have hy := ofOne?_eq_some_iff.2 hc
    rw [ofOne?_eq_some_iff.2 (h ▸ hc)] at hy
    exact (Option.some.inj hy).symm
  · have hy := ofTwo?_eq_some_iff.2 hc
    rw [ofTwo?_eq_some_iff.2 (h ▸ hc)] at hy
    exact (Option.some.inj hy).symm

/-- A symbol starts with no letter and no digit, and holds no blank and no slash. -/
theorem text_plain (y : Symbol) : ∃ c cs, y.text.toList = c :: cs ∧ Scan.isLetter c = false ∧
    Scan.isDigit c = false ∧ (c :: cs).all (fun d => !Scan.isBlank d && d != '/') = true := by
  cases y <;> exact ⟨_, _, rfl, by decide, by decide, by decide⟩

end Symbol

/-! ## Numbers -/

namespace Scan

theorem toNat_of_isDigit {c : Char} (h : isDigit c = true) : 48 ≤ c.toNat ∧ c.toNat ≤ 57 := by
  simp only [isDigit, Bool.and_eq_true, decide_eq_true_eq] at h
  exact ⟨UInt32.le_iff_toNat_le.1 h.1, UInt32.le_iff_toNat_le.1 h.2⟩

/-- A digit is the character of its value. -/
theorem digitChar_of_isDigit {c : Char} (h : isDigit c = true) :
    c.toNat - 48 < 10 ∧ (c.toNat - 48).digitChar = c := by
  obtain ⟨hlo, hhi⟩ := toNat_of_isDigit h
  have hlt : c.toNat - 48 < 10 := by omega
  refine ⟨hlt, Char.toNat_inj.1 ?_⟩
  rw [Nat.toNat_digitChar_of_lt_ten hlt]
  omega

/-- Digits after those of a number above zero continue the number. -/
theorem toDigits_ofDigitChars_append {cs : List Char} (hcs : ∀ d ∈ cs, isDigit d = true) {n : Nat}
    (hn : 0 < n) : Nat.toDigits 10 (Nat.ofDigitChars 10 cs n) = Nat.toDigits 10 n ++ cs := by
  induction cs generalizing n with
  | nil => rw [Nat.ofDigitChars_nil, List.append_nil]
  | cons d cs ih =>
    obtain ⟨hlt, hchar⟩ := digitChar_of_isDigit (hcs d List.mem_cons_self)
    have hpos : 0 < 10 * n + (d.toNat - 48) := by omega
    have hd : Nat.toDigits 10 (d.toNat - 48) = [d] := by
      rw [Nat.toDigits_of_lt_base hlt, hchar]
    have hstep : Nat.ofDigitChars 10 (d :: cs) n =
        Nat.ofDigitChars 10 cs (10 * n + (d.toNat - 48)) := Nat.ofDigitChars_cons
    rw [hstep, ih (fun e he => hcs e (List.mem_cons_of_mem d he)) hpos,
      ← Nat.toDigits_append_toDigits (by decide) hn hlt, hd, List.append_assoc,
      List.singleton_append]

/-- **The text of a number is how its value is written.** -/
theorem Pattern.toDigits_ofDigitChars {cs : List Char} (h : Pattern cs .num) :
    Nat.toDigits 10 (Nat.ofDigitChars 10 cs 0) = cs := by
  cases h with
  | zero => rfl
  | @number c cs hc h0 hcs =>
    obtain ⟨hlt, hchar⟩ := digitChar_of_isDigit hc
    have hpos : 0 < c.toNat - 48 := by
      refine Nat.pos_of_ne_zero fun hzero => h0 ?_
      rw [← hchar, hzero]
      rfl
    have hstep : Nat.ofDigitChars 10 (c :: cs) 0 =
        Nat.ofDigitChars 10 cs (10 * 0 + (c.toNat - 48)) := Nat.ofDigitChars_cons
    rw [hstep, Nat.mul_zero, Nat.zero_add, toDigits_ofDigitChars_append hcs hpos,
      Nat.toDigits_of_lt_base hlt, hchar, List.singleton_append]

/-- No number above zero is written with a zero in front. -/
theorem toDigits_eq_cons {n : Nat} (hn : 0 < n) :
    ∃ c cs, Nat.toDigits 10 n = c :: cs ∧ c ≠ '0' := by
  induction n using Nat.base_induction 10 (by decide) with
  | single m hm =>
    refine ⟨m.digitChar, [], Nat.toDigits_of_lt_base hm, fun h => ?_⟩
    have hm0 := congrArg Char.toNat h
    rw [Nat.toNat_digitChar_of_lt_ten hm] at hm0
    have hzero : ('0' : Char).toNat = 48 := rfl
    omega
  | digit m k hk hm ih =>
    obtain ⟨c, cs, heq, hc⟩ := ih hm
    refine ⟨c, cs ++ Nat.toDigits 10 k, ?_, hc⟩
    rw [← Nat.toDigits_append_toDigits (by decide) hm hk, heq, List.cons_append]

theorem pattern_toDigits (n : Nat) : Pattern (Nat.toDigits 10 n) .num := by
  rcases Nat.eq_zero_or_pos n with rfl | hn
  · exact .zero
  · obtain ⟨c, cs, heq, hc⟩ := toDigits_eq_cons hn
    have hdigit : ∀ d ∈ c :: cs, isDigit d = true := fun d hd =>
      Nat.isDigit_of_mem_toDigits (by decide) (by decide) (heq ▸ hd)
    rw [heq]
    exact .number (hdigit c List.mem_cons_self) hc fun d hd =>
      hdigit d (List.mem_cons_of_mem c hd)

end Scan

namespace Word

theorem literal_num {n : Nat} (h : n < Nat.pow 2 63) :
    (Word.num (.ofNat n)).literal.toList = Nat.toDigits 10 n := by
  have htoInt : (Int64.ofNat n).toInt = n := Int64.toInt_ofNat_of_lt h
  rw [literal, htoInt]
  exact Nat.toList_repr

/-! ## Words of letters -/

theorem literal_ofLetters (s : String) : (ofLetters s).literal = s := by
  unfold ofLetters
  split
  · next h => exact h.symm
  · split
    · next h => exact h.symm
    · split
      · next k hk =>
        have hfind : Keyword.all.find? (·.text = s) = some k := hk
        have htext := List.find?_some hfind
        exact of_decide_eq_true htext
      · rfl

/-- A word of letters is a name unless it is reserved. -/
theorem ofLetters_of_not_mem {s : String} (h : s ∉ Scan.reserved) : ofLetters s = .name s := by
  simp only [Scan.reserved, List.mem_append, List.mem_cons, List.not_mem_nil, or_false, not_or,
    List.mem_map, not_exists, not_and] at h
  obtain ⟨⟨htrue, hfalse⟩, hkeyword⟩ := h
  have hnone : Keyword.ofText? s = none :=
    List.find?_eq_none.2 fun k hk hs => hkeyword k hk (of_decide_eq_true hs)
  rw [ofLetters, if_neg htrue, if_neg hfalse, hnone]

theorem ofLetters_of_mem {s : String} (h : s ∈ Scan.reserved) :
    (∃ b, ofLetters s = .bool b) ∨ ∃ k, ofLetters s = .keyword k := by
  simp only [Scan.reserved, List.mem_append, List.mem_cons, List.not_mem_nil, or_false,
    List.mem_map] at h
  rcases h with (rfl | rfl) | ⟨k, -, rfl⟩
  · exact .inl ⟨true, rfl⟩
  · exact .inl ⟨false, rfl⟩
  · cases k <;> exact .inr ⟨_, rfl⟩

end Word

namespace Scan

theorem pattern_ofLetters {c : Char} {cs : List Char} (hc : isLetter c = true)
    (hcs : ∀ d ∈ cs, isNameChar d = true) :
    Pattern (c :: cs) (Word.ofLetters (.ofList (c :: cs))).token := by
  have hliteral : (Word.ofLetters (.ofList (c :: cs))).literal.toList = c :: cs := by
    rw [Word.literal_ofLetters, String.toList_ofList]
  by_cases h : String.ofList (c :: cs) ∈ reserved
  · rcases Word.ofLetters_of_mem h with ⟨b, hb⟩ | ⟨k, hk⟩
    · rw [hb] at hliteral ⊢
      exact hliteral ▸ .bool b
    · rw [hk] at hliteral ⊢
      exact hliteral ▸ .keyword k
  · rw [Word.ofLetters_of_not_mem h]
    exact .name hc hcs h

/-! ## The first character of a token -/

theorem isDigit_of_isLetter {c : Char} (h : isLetter c = true) : isDigit c = false := by
  refine Bool.eq_false_iff.2 fun hd => ?_
  have := toNat_of_isDigit hd
  simp only [isLetter, Bool.or_eq_true, Bool.and_eq_true, decide_eq_true_eq] at h
  rcases h with ⟨h, -⟩ | ⟨h, -⟩
  · have hle : 97 ≤ c.toNat := UInt32.le_iff_toNat_le.1 h
    omega
  · have hle : 65 ≤ c.toNat := UInt32.le_iff_toNat_le.1 h
    omega

/-- A token is told by its first character. -/
inductive Shape (c : Char) (cs : List Char) (t : Token) : Prop where
  | letters : isLetter c = true → (∀ d ∈ cs, isNameChar d = true) →
      t = (Word.ofLetters (.ofList (c :: cs))).token → Shape c cs t
  | zero : c = '0' → cs = [] → t = .num → Shape c cs t
  | number : isDigit c = true → c ≠ '0' → (∀ d ∈ cs, isDigit d = true) → t = .num → Shape c cs t
  | symbol (y : Symbol) : isLetter c = false → isDigit c = false → y.text.toList = c :: cs →
      t = .symbol y → Shape c cs t

theorem Pattern.shape {cs : List Char} {t : Token} (h : Pattern cs t) :
    ∃ c ds, cs = c :: ds ∧ Shape c ds t := by
  cases h with
  | symbol y =>
    obtain ⟨c, ds, heq, hletter, hdigit, -⟩ := y.text_plain
    exact ⟨c, ds, heq, .symbol y hletter hdigit heq rfl⟩
  | keyword k =>
    cases k <;> exact ⟨_, _, rfl, .letters (by decide) (List.all_eq_true.1 (by decide))
      (by decide +kernel)⟩
  | bool b =>
    cases b <;> exact ⟨_, _, rfl, .letters (by decide) (List.all_eq_true.1 (by decide))
      (by decide +kernel)⟩
  | name hc hcs hname =>
    refine ⟨_, _, rfl, .letters hc hcs ?_⟩
    rw [Word.ofLetters_of_not_mem hname]
    rfl
  | zero => exact ⟨_, _, rfl, .zero rfl rfl rfl⟩
  | number hc h0 hcs => exact ⟨_, _, rfl, .number hc h0 hcs rfl⟩

/-- **A text is a token of one kind at most.** -/
theorem Pattern.det {cs : List Char} {t t' : Token} (h : Pattern cs t) (h' : Pattern cs t') :
    t = t' := by
  obtain ⟨c, ds, rfl, hs⟩ := h.shape
  obtain ⟨c', ds', heq, hs'⟩ := h'.shape
  obtain ⟨rfl, rfl⟩ := List.cons.inj heq
  cases hs with
  | letters hc _ ht =>
    cases hs' with
    | letters _ _ ht' => rw [ht, ht']
    | zero hz => exact absurd hc (hz ▸ by decide)
    | number hd => exact absurd hd (Bool.eq_false_iff.1 (isDigit_of_isLetter hc))
    | symbol y hl => exact absurd hc (Bool.eq_false_iff.1 hl)
  | zero hz _ ht =>
    cases hs' with
    | letters hc => exact absurd hc (hz ▸ by decide)
    | zero _ _ ht' | number _ _ _ ht' => rw [ht, ht']
    | symbol y _ hd => exact absurd hd (hz ▸ by decide)
  | number hd _ _ ht =>
    cases hs' with
    | letters hc => exact absurd hd (Bool.eq_false_iff.1 (isDigit_of_isLetter hc))
    | zero _ _ ht' | number _ _ _ ht' => rw [ht, ht']
    | symbol y _ hd' => exact absurd hd (Bool.eq_false_iff.1 hd')
  | symbol y hl hd htext ht =>
    cases hs' with
    | letters hc => exact absurd hc (Bool.eq_false_iff.1 hl)
    | zero hz => exact absurd hd (hz ▸ by decide)
    | number hd' => exact absurd hd' (Bool.eq_false_iff.1 hd)
    | symbol y' _ _ htext' ht' =>
      rw [ht, ht', Symbol.text_injective (htext.trans htext'.symm)]

/-- **No token holds a blank or a slash.** -/
theorem Pattern.plain {cs : List Char} {t : Token} (h : Pattern cs t) :
    ∀ d ∈ cs, isBlank d = false ∧ d ≠ '/' := by
  -- every class of characters in a pattern lies apart from the blanks and the slash
  have hname : ∀ d, isNameChar d = true → isBlank d = false ∧ d ≠ '/' := by
    intro d hd
    constructor
    · refine Bool.eq_false_iff.2 fun hb => ?_
      simp only [isBlank, Bool.or_eq_true, decide_eq_true_eq] at hb
      rcases hb with ((((rfl | rfl) | rfl) | rfl) | rfl) | rfl <;> exact absurd hd (by decide)
    · rintro rfl
      exact absurd hd (by decide)
  have hletter : ∀ d, isLetter d = true → isNameChar d = true := fun d hd => by
    rw [isNameChar, hd]
    rfl
  have hdigit : ∀ d, isDigit d = true → isNameChar d = true := fun d hd => by
    rw [isNameChar, hd, Bool.or_true]
    rfl
  obtain ⟨c, ds, rfl, hs⟩ := h.shape
  intro d hd
  cases hs with
  | letters hc hcs =>
    rcases List.mem_cons.1 hd with rfl | hd
    · exact hname d (hletter d hc)
    · exact hname d (hcs d hd)
  | zero hz hnil =>
    rw [hz, hnil, List.mem_singleton] at hd
    exact hd ▸ hname '0' (by decide)
  | number hc _ hcs =>
    rcases List.mem_cons.1 hd with rfl | hd
    · exact hname d (hdigit d hc)
    · exact hname d (hdigit d (hcs d hd))
  | symbol y _ _ htext =>
    obtain ⟨_, _, heq, -, -, hplain⟩ := y.text_plain
    rw [htext] at heq
    have hd' := List.all_eq_true.1 hplain d (heq ▸ hd)
    rwa [Bool.and_eq_true, Bool.not_eq_true', bne_iff_ne] at hd'

end Scan

/-! ## Words and their texts -/

namespace Word

/-- The bytes that spell a word. -/
def bytes (w : Word) : List UInt8 := Utf8.ofString w.literal

/-- The words that a source can spell: a name is an identifier and not reserved, and a
number is not negative. -/
def Spellable : Word → Prop
  | .name x => Scan.Pattern x.toList .name
  | .num n => 0 ≤ n.toInt
  | .bool _ | .symbol _ | .keyword _ => True

/-- The text of a number that is not negative. -/
theorem literal_num_of_nonneg {n : Int64} (h : 0 ≤ n.toInt) :
    (Word.num n).literal.toList = Nat.toDigits 10 n.toInt.toNat := by
  have hcast : n.toInt = (n.toInt.toNat : Int) := (Int.toNat_of_nonneg h).symm
  rw [literal, hcast, Int.toNat_natCast]
  exact Nat.toList_repr

/-- A number below zero is written with a sign, and no token starts with a sign and a
digit. -/
theorem not_pattern_literal_of_neg {n : Int64} (h : n.toInt < 0) :
    ¬ Scan.Pattern (Word.num n).literal.toList .num := by
  intro hp
  obtain ⟨k, hk⟩ := Int.eq_negSucc_of_lt_zero h
  have hsign : (Word.num n).literal.toList = '-' :: (k + 1).repr.toList := by
    rw [literal, hk]
    exact String.toList_append
  rw [hsign] at hp
  obtain ⟨c, ds, heq, hs⟩ := hp.shape
  obtain ⟨rfl, rfl⟩ := List.cons.inj heq
  cases hs with
  | letters hc => exact absurd hc (by decide)
  | zero hz => exact absurd hz (by decide)
  | number hd => exact absurd hd (by decide)
  | symbol y _ _ _ ht => cases ht

/-- **What can be spelled is spelled by a text of its kind.** -/
theorem spellable_iff_pattern {w : Word} : w.Spellable ↔ Scan.Pattern w.literal.toList w.token := by
  cases w with
  | name x => exact Iff.rfl
  | num n =>
    constructor
    · intro h
      rw [literal_num_of_nonneg h]
      exact Scan.pattern_toDigits _
    · intro hp
      exact Int.not_lt.1 fun h => not_pattern_literal_of_neg h hp
  | bool b => exact iff_of_true trivial (.bool b)
  | symbol y => exact iff_of_true trivial (.symbol y)
  | keyword k => exact iff_of_true trivial (.keyword k)

theorem Spellable.pattern {w : Word} (h : w.Spellable) : Scan.Pattern w.literal.toList w.token :=
  spellable_iff_pattern.1 h

/-- **A text spells one word.** -/
theorem eq_of_literal_eq {w w' : Word} (h : w.Spellable) (h' : w'.Spellable)
    (heq : w.literal = w'.literal) : w = w' := by
  have htoken : w.token = w'.token := h.pattern.det (heq ▸ h'.pattern)
  cases w with
  | name x =>
    cases w' <;> cases htoken
    exact congrArg Word.name heq
  | num n =>
    cases w' <;> cases htoken
    next m =>
      have hdigits := congrArg String.toList heq
      rw [literal_num_of_nonneg h, literal_num_of_nonneg h'] at hdigits
      have hnat := congrArg (Nat.ofDigitChars 10 · 0) hdigits
      simp only [Nat.ofDigitChars_ten_toDigits] at hnat
      have hint : n.toInt = m.toInt := by
        rw [← Int.toNat_of_nonneg h, ← Int.toNat_of_nonneg h', hnat]
      exact congrArg Word.num (Int64.toInt_inj.1 hint)
  | bool b =>
    cases w' <;> cases htoken
    next b' =>
      revert heq
      cases b <;> cases b' <;> decide
  | symbol y =>
    cases w' <;> cases htoken
    rfl
  | keyword k =>
    cases w' <;> cases htoken
    rfl

end Word

end PairDict
