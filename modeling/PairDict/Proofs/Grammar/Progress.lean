import PairDict.Proofs.Grammar.Agreement
import PairDict.Proofs.Grammar.Derived
import PairDict.Proofs.Lexeme.Offset

/-! # Reading makes progress

A reader that succeeds has a derivation of the words which it has passed over, and no
derivation is empty; a driven reader has passed the same words, and has moved its cursor once
for each of them.  So whatever stands before a driven reader, if it succeeds it has moved on
by at least one lexeme, and its cursor stands where these moves have brought it
(`Driver.Advances`).  On a stream that has failed already it never succeeds.

The loops and the recursion of the readers thus use up the tokens of a source, of which there
are at most as many as bytes, and the end (`Source.reading_progresses`).
-/
namespace PairDict

namespace Spells

variable {ws : List Word} {s r : TokenStream}

/-- What follows some words is left when as many lexemes are passed. -/
theorem iterate_tail (h : Spells ws s r) : TokenStream.tail^[ws.length] s = r := by
  induction ws generalizing s with
  | nil => exact h
  | cons w ws ih =>
    obtain ⟨p, t, rfl, ht⟩ := h
    rw [List.length_cons, Function.iterate_succ_apply]
    exact ih ht

theorem length_eq (h : Spells ws s r) : s.length = ws.length + r.length := by
  induction ws generalizing s with
  | nil =>
    rw [nil_iff.1 h, List.length_nil, Nat.zero_add]
  | cons w ws ih =>
    obtain ⟨p, t, rfl, ht⟩ := h
    rw [TokenStream.length_cons, ih ht, List.length_cons, Nat.succ_add]

end Spells

/-- An expression that is read has passed over some words, whatever level it is read on. -/
theorem Parser.binary_spells {level : Nat} {s r : TokenStream} {y : Expr Pos}
    (h : (Parser.binary level s).Gives y r) : ∃ ws, Spells ws s r := by
  by_cases hlevel : level ≤ 5
  · obtain ⟨d, hd, -⟩ := Parser.binary_derives hlevel h
    exact ⟨_, hd⟩
  · -- no operator binds tighter, so there is one operand
    obtain ⟨x, t, hx, hy⟩ := Parser.binary_gives_iff.1 h
    have hle : t.token.precedence ≤ level :=
      Nat.le_trans (Grammar.precedence_le _) (Nat.le_of_not_le hlevel)
    obtain ⟨-, rfl⟩ := (Parser.binaryTail_of_le hle).1 hy
    obtain ⟨d, hd, -⟩ := Parser.unary_derives hx
    exact ⟨_, hd⟩

namespace Driver

variable {β : Type} {e : ScanError}

/-! ## Failures -/

theorem operand_failed_eq : operand (.failed e) = refuse none (.failed e) := by
  unfold operand
  rfl

theorem postfixed_failed_eq : postfixed (.failed e) = refuse none (.failed e) := by
  rw [postfixed, operand_failed_eq]
  rfl

theorem unary_failed_eq : unary (.failed e) = refuse none (.failed e) := by
  unfold unary
  exact postfixed_failed_eq

theorem binary_failed_eq (level : Nat) : binary level (.failed e) = refuse none (.failed e) := by
  rw [binary, unary_failed_eq]
  rfl

theorem stmt_failed_eq : stmt (.failed e) = refuse none (.failed e) := by
  unfold stmt
  rfl

/-! ## Advances -/

/-- Whenever the reader succeeds, it has moved its cursor over at least one lexeme, once for
each lexeme that it has taken off the stream, and there the cursor stands. -/
def Advances (d : (s : TokenStream) → Reads β s.length) : Prop :=
  ∀ s k taken k', d s k = .ok taken k' → ∃ moves, 0 < moves ∧ k' = k + moves ∧
    s.length = moves + taken.rest.length ∧ Cursor.on taken.rest = Cursor.next^[moves] (.on s)

/-- **A reader advances over the words that it has read.** -/
theorem advances_of_agrees {d : (s : TokenStream) → Reads β s.length}
    {p : (s : TokenStream) → Parser.Result β s.length}
    (hagrees : ∀ s k, Clean s → Agrees (k + s.length) (d s k) (p s))
    (hfailed : ∀ e, d (.failed e) = refuse none (.failed e))
    (hspells : ∀ s b r, (p s).Gives b r → ∃ ws, Spells ws s r) : Advances d := by
  intro s k taken k' htaken
  rcases clean_or_failed s with hs | ⟨e, rfl⟩
  · have hagrees := hagrees s k hs
    rw [htaken] at hagrees
    generalize hp : p s = result at hagrees
    cases hagrees with
    | @ok b rest _ lt _ _ hmoves =>
      obtain ⟨ws, hws⟩ := hspells s b rest ⟨lt, hp⟩
      have hlen : s.length = ws.length + rest.length := hws.length_eq
      refine ⟨ws.length, by omega, by omega, hlen, ?_⟩
      rw [Cursor.iterate_next_on, hws.iterate_tail]
  · rw [hfailed] at htaken
    cases htaken

theorem operand_advances : Advances operand := by
  refine advances_of_agrees (fun s k hs => operand_agrees s hs rfl) (fun _ => operand_failed_eq)
    fun s b r h => ?_
  obtain ⟨d, hd, -⟩ := Parser.operand_derives h
  exact ⟨_, hd⟩

theorem postfixed_advances : Advances postfixed := by
  refine advances_of_agrees (fun s k hs => postfixed_agrees s hs rfl)
    (fun _ => postfixed_failed_eq) fun s b r h => ?_
  obtain ⟨d, hd, -⟩ := Parser.postfixed_derives h
  exact ⟨_, hd⟩

theorem unary_advances : Advances unary := by
  refine advances_of_agrees (fun s k hs => unary_agrees s hs rfl) (fun _ => unary_failed_eq)
    fun s b r h => ?_
  obtain ⟨d, hd, -⟩ := Parser.unary_derives h
  exact ⟨_, hd⟩

theorem binary_advances (level : Nat) : Advances (binary level) :=
  advances_of_agrees (fun s _ hs => binary_agrees level s hs rfl)
    (fun _ => binary_failed_eq level) fun _ _ _ => Parser.binary_spells

theorem stmt_advances : Advances stmt := by
  refine advances_of_agrees (fun s k hs => stmt_agrees s hs rfl) (fun _ => stmt_failed_eq)
    fun s b r h => ?_
  obtain ⟨d, hd, -⟩ := Parser.stmt_derives h
  exact ⟨_, hd⟩

end Driver

/-- The scanner has read the bytes of the source up to its offset, and its next move reads at
least one byte more, unless it comes to the end or fails. -/
structure Scanner.Proceeds (src : Source) (s : Scanner) : Prop where
  offset_le : s.offset src ≤ src.bytes.length
  ahead : Utf8.encode s.unread = src.bytes.drop (s.offset src)
  next : s.next.token ≠ .eof → s.next.token ≠ .error → s.offset src < s.next.offset src

/-- **Scanning and parsing make progress.**  Whatever a scanner was asked before, a move to a
token that is no end advances its offset, so the end of a source is reached by at most one
move more than there are bytes.  A driven reader, whose cursor shows what the scanner answers,
comes to a program or to an error, and moves at most once for each token of the source, its end
included.  If it succeeds with a statement, an expression of any level, or an operand with or
without its operator and its brackets, it has moved over at least one token. -/
theorem Source.reading_progresses (src : Source) :
    (∀ calls, ((Scanner.ofSource src).after calls).Proceeds src) ∧
    src.tokens.suffixes.length ≤ src.bytes.length + 1 ∧
    (∀ calls : List Scanner.Call, 0 < calls.count .next →
      (((Scanner.ofSource src).after calls).token = .eof ∨
        ((Scanner.ofSource src).after calls).token = .error ↔
          src.tokens.suffixes.length ≤ calls.count .next)) ∧
    (∀ calls, ((Scanner.ofSource src).after calls).Agrees
      (Cursor.next^[calls.count .next] (.before src.tokens))) ∧
    ((∃ p, src.tokens.program = .ok p ∧
        Driver.program src.tokens 0 = .ok p src.tokens.suffixes.length) ∨
      ∃ e moves, src.tokens.program = .error e ∧
        Driver.program src.tokens 0 = .error (some (.ofSyntax e)) moves ∧
        moves ≤ src.tokens.suffixes.length) ∧
    Driver.Advances Driver.stmt ∧ (∀ level, Driver.Advances (Driver.binary level)) ∧
    Driver.Advances Driver.unary ∧ Driver.Advances Driver.postfixed ∧
    Driver.Advances Driver.operand := by
  have hahead := fun calls => (Scanner.ahead_ofSource src).after calls
  refine ⟨fun calls => ⟨Scanner.offset_le src _, (hahead calls).drop_offset.symm, ?_⟩, ?_,
    Scanner.after_end_iff src, fun calls => (Scanner.agrees_ofSource src).after calls, ?_,
    Driver.stmt_advances, Driver.binary_advances, Driver.unary_advances,
    Driver.postfixed_advances, Driver.operand_advances⟩
  · intro heof herror
    exact (hahead calls).offset_lt_next (not_or.2 ⟨heof, herror⟩)
  · rw [TokenStream.length_suffixes]
    exact Nat.succ_le_succ src.length_tokens_le
  · rw [TokenStream.length_suffixes]
    exact Driver.program_agrees src.tokens

end PairDict
