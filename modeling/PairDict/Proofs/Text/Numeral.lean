/-! # Integers are told apart by their text

An integer is written as its digits, with a sign before them if it is negative
(`toList_toString_int`).  So integers with the same text are the same, and an integer at the
start of a text can be told from what follows, if that does not go on like an integer
(`Ends`, `toString_int_append_inj`).
-/
namespace PairDict.Numeral

/-- How an integer is written: a sign if it is negative, and digits. -/
theorem toList_toString_int (n : Int) :
    (toString n).toList = (if n < 0 then ['-'] else []) ++ Nat.toDigits 10 n.natAbs := by
  rw [Int.toString_eq_repr, Int.repr_eq_if]
  by_cases h : 0 ≤ n
  · rw [if_pos h, if_neg (Int.not_lt.2 h), List.nil_append, Nat.toList_repr]
    congr 1
    omega
  · rw [if_neg h, if_pos (Int.not_le.1 h), String.toList_append, Nat.toList_repr]
    congr 2
    omega

theorem toDigits_inj {n n' : Nat} (h : Nat.toDigits 10 n = Nat.toDigits 10 n') : n = n' := by
  rw [← Nat.ofDigitChars_ten_toDigits (n := n), h, Nat.ofDigitChars_ten_toDigits]

theorem toString_int_inj {n n' : Int} (h : (toString n).toList = (toString n').toList) :
    n = n' := by
  have hminus : ∀ {m : Nat} {cs : List Char}, Nat.toDigits 10 m ≠ '-' :: cs := by
    intro m cs heq
    have hdigit : Char.isDigit '-' = true :=
      Nat.isDigit_of_mem_toDigits (b := 10) (n := m) (by decide) (by decide)
        (heq ▸ List.mem_cons_self)
    cases hdigit
  rw [toList_toString_int, toList_toString_int] at h
  by_cases hn : n < 0
  · by_cases hn' : n' < 0
    · rw [if_pos hn, if_pos hn'] at h
      have := toDigits_inj (List.cons.inj h).2
      omega
    · rw [if_pos hn, if_neg hn'] at h
      exact absurd h.symm hminus
  · by_cases hn' : n' < 0
    · rw [if_neg hn, if_pos hn'] at h
      exact absurd h hminus
    · rw [if_neg hn, if_neg hn'] at h
      have := toDigits_inj h
      omega

/-- The characters of an integer. -/
def inInt (c : Char) : Bool := c.isDigit || c = '-'

theorem inInt_of_mem {n : Int} {c : Char} (h : c ∈ (toString n).toList) : inInt c = true := by
  rw [toList_toString_int] at h
  rcases List.mem_append.1 h with h | h
  · split at h
    · rw [List.mem_singleton.1 h]
      rfl
    · cases h
  · rw [inInt, Nat.isDigit_of_mem_toDigits (by decide) (by decide) h, Bool.true_or]

/-- Some character stands first. -/
theorem toString_int_front (n : Int) : ∃ c cs, (toString n).toList = c :: cs ∧ inInt c = true := by
  cases hn : (toString n).toList with
  | nil =>
    rw [toList_toString_int] at hn
    exact absurd (List.append_eq_nil_iff.1 hn).2 Nat.toDigits_ne_nil
  | cons c cs => exact ⟨c, cs, rfl, inInt_of_mem (n := n) (hn ▸ List.mem_cons_self)⟩

/-- What follows an integer does not go on like one. -/
def Ends (r : List Char) : Prop := ∀ c, r.head? = some c → inInt c = false

theorem ends_cons {c : Char} (h : inInt c = false) (r : List Char) : Ends (c :: r) := by
  rintro d ⟨⟩
  exact h

theorem takeWhile_inInt {r : List Char} (h : Ends r) : r.takeWhile inInt = [] := by
  cases r with
  | nil => rfl
  | cons c r =>
    refine List.takeWhile_cons_of_neg ?_
    rw [h c rfl]
    exact Bool.false_ne_true

theorem toString_int_append_inj {n n' : Int} {r r' : List Char} (hr : Ends r) (hr' : Ends r')
    (h : (toString n).toList ++ r = (toString n').toList ++ r') : n = n' ∧ r = r' := by
  have htake := congrArg (List.takeWhile inInt) h
  rw [List.takeWhile_append_of_pos fun _ => inInt_of_mem,
    List.takeWhile_append_of_pos fun _ => inInt_of_mem, takeWhile_inInt hr, takeWhile_inInt hr',
    List.append_nil, List.append_nil] at htake
  have hn := toString_int_inj htake
  subst hn
  exact ⟨rfl, List.append_cancel_left h⟩

end PairDict.Numeral
