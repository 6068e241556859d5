import PairDict.Tree.Parser

/-! # What a reader reads

A reader of the grammar gives a value and the stream that is left, with a proof that
the rest is short enough, or an error.  `Result.Gives` forgets the proof and leaves the
errors out.  Each reader then has one lemma that says exactly when it gives what, in
terms of the readers that it calls; nothing else has to look into its definition.

A reader decides by the front of the stream.  The lemmas say so by the token there
(`TokenStream.token`), which for a symbol or a keyword is the same as the word
(`token_eq_symbol_iff`, `token_eq_keyword_iff`).
-/
namespace PairDict

namespace TokenStream

variable {s : TokenStream}

/-- The rest of a stream with a symbol at its front stands behind that symbol. -/
theorem token_eq_symbol_iff {y : Symbol} :
    s.token = .symbol y ↔ ∃ p t, s = .cons ⟨.symbol y, p⟩ t := by
  constructor
  · intro h
    match s, h with
    | .cons ⟨.symbol _, p⟩ t, h =>
      cases h
      exact ⟨p, t, rfl⟩
  · rintro ⟨p, t, rfl⟩
    rfl

theorem token_eq_keyword_iff {k : Keyword} :
    s.token = .keyword k ↔ ∃ p t, s = .cons ⟨.keyword k, p⟩ t := by
  constructor
  · intro h
    match s, h with
    | .cons ⟨.keyword _, p⟩ t, h =>
      cases h
      exact ⟨p, t, rfl⟩
  · rintro ⟨p, t, rfl⟩
    rfl

end TokenStream

namespace Parser

variable {β γ : Type} {n k : Nat}

/-! ## Steps -/

/-- The reader succeeds with the value `b` and leaves the stream `r`. -/
def Result.Gives (x : Result β n) (b : β) (r : TokenStream) : Prop := ∃ h, x = .ok ⟨b, r, h⟩

namespace Result

variable {x : Result β n} {b c : β} {r t : TokenStream}

/-- What is left is shorter. -/
theorem Gives.lt (h : x.Gives b r) : r.length < n := h.1

theorem gives_bind_iff {f : Step β n → Result γ k} {c : γ} :
    Gives (x >>= f) c r ↔ ∃ b t, ∃ h : x.Gives b t, (f ⟨b, t, h.lt⟩).Gives c r := by
  cases x with
  | error e =>
    constructor
    · rintro ⟨_, h⟩
      cases h
    · rintro ⟨_, _, ⟨_, h⟩, _⟩
      cases h
  | ok step =>
    obtain ⟨b, t, ht⟩ := step
    constructor
    · intro h
      exact ⟨b, t, ⟨ht, rfl⟩, h⟩
    · rintro ⟨_, _, ⟨_, h⟩, hf⟩
      cases h
      exact hf

theorem gives_pure_iff {h : t.length < n} :
    Gives (pure ⟨b, t, h⟩ : Result β n) c r ↔ c = b ∧ r = t := by
  constructor
  · rintro ⟨_, h⟩
    cases h
    exact ⟨rfl, rfl⟩
  · rintro ⟨rfl, rfl⟩
    exact ⟨h, rfl⟩

theorem not_gives_error {e : SyntaxError} : ¬ Gives (.error e : Result β n) b r := by
  rintro ⟨_, h⟩
  cases h

end Result

open Result

/-! ## Single words -/

variable {s r : TokenStream}

theorem want_gives_iff {w : Word} {p : Pos} : (want w s).Gives p r ↔ s = .cons ⟨w, p⟩ r := by
  unfold want
  split
  · next l t =>
    obtain ⟨w', p'⟩ := l
    split
    · next hw =>
      cases hw
      constructor
      · rintro ⟨_, h⟩
        cases h
        rfl
      · intro h
        cases h
        exact ⟨_, rfl⟩
    · next hw =>
      refine ⟨fun h => absurd h not_gives_error, fun h => ?_⟩
      cases h
      exact absurd rfl hw
  · next hs =>
    refine ⟨fun h => absurd h not_gives_error, fun h => ?_⟩
    exact absurd h (hs _ _)

theorem ident_gives_iff {x : Ident Pos} :
    (ident s).Gives x r ↔ s = .cons ⟨.name x.name, x.ann⟩ r := by
  unfold ident
  split
  · constructor
    · rintro ⟨_, h⟩
      cases h
      rfl
    · intro h
      cases h
      exact ⟨_, rfl⟩
  · next hs =>
    refine ⟨fun h => absurd h not_gives_error, fun h => ?_⟩
    exact absurd h (hs _ _ _)

/-- A word at the front is passed over. -/
theorem got_cons (w : Word) (p : Pos) (t : TokenStream) :
    got w (.cons ⟨w, p⟩ t) = some ⟨t, Nat.lt_succ_self _⟩ :=
  if_pos rfl

/-- A word that is not at the front is not passed over. -/
theorem got_of_token_ne {w : Word} (h : s.token ≠ w.token) : got w s = none := by
  unfold got
  split
  · next l t =>
    refine if_neg fun hw => h ?_
    exact congrArg Word.token hw
  · rfl

/-! ## Expressions -/

variable {level : Nat} {x y : Expr Pos}

theorem binary_gives_iff :
    (binary level s).Gives y r ↔
      ∃ x t, (unary s).Gives x t ∧ (binaryTail level x t).Gives y r := by
  rw [binary]
  simp only [gives_bind_iff, gives_pure_iff, exists_prop]
  constructor
  · rintro ⟨x, t, hx, y', r', hy, rfl, rfl⟩
    exact ⟨x, t, hx, hy⟩
  · rintro ⟨x, t, hx, hy⟩
    exact ⟨x, t, hx, y, r, hy, rfl, rfl⟩

/-- Nothing is read if what is at the front does not bind tighter than the level. -/
theorem binaryTail_of_le (h : s.token.precedence ≤ level) :
    (binaryTail level x s).Gives y r ↔ y = x ∧ r = s := by
  unfold binaryTail
  split
  · next l t =>
    have hl : ¬ level < l.word.token.precedence := Nat.not_lt.2 h
    rw [if_neg hl]
    exact gives_pure_iff
  · exact gives_pure_iff

/-- An operator that binds tighter than the level takes a right operand, whose operators
bind tighter still. -/
theorem binaryTail_of_lt {l : Lexeme} {t : TokenStream} (h : level < l.word.token.precedence) :
    (binaryTail level x (.cons l t)).Gives y r ↔
      ∃ z t', (binary l.word.token.precedence t).Gives z t' ∧
        (binaryTail level (combine l.word.token x z) t').Gives y r := by
  rw [binaryTail, if_pos h]
  simp only [gives_bind_iff, gives_pure_iff, exists_prop]
  constructor
  · rintro ⟨z, t', hz, y', r', hy, rfl, rfl⟩
    exact ⟨z, t', hz, hy⟩
  · rintro ⟨z, t', hz, hy⟩
    exact ⟨z, t', hz, y, r, hy, rfl, rfl⟩

theorem unary_of_isUnary {l : Lexeme} {t : TokenStream} (h : isUnary l.word = true) :
    (unary (.cons l t)).Gives y r ↔
      ∃ x, (postfixed t).Gives x r ∧ y = .unary l.pos l.word.token x := by
  rw [unary, if_pos h]
  simp only [gives_bind_iff, gives_pure_iff, exists_prop]
  constructor
  · rintro ⟨x, t', hx, rfl, rfl⟩
    exact ⟨x, hx, rfl⟩
  · rintro ⟨x, hx, rfl⟩
    exact ⟨x, r, hx, rfl, rfl⟩

theorem unary_of_not_isUnary (h : ∀ l t, s = .cons l t → isUnary l.word = false) :
    (unary s).Gives y r ↔ (postfixed s).Gives y r := by
  unfold unary
  split
  · next l t =>
    have hl : isUnary l.word = false := h l t rfl
    rw [hl, if_neg Bool.false_ne_true]
  · exact Iff.rfl

theorem postfixed_gives_iff :
    (postfixed s).Gives y r ↔ ∃ x t, (operand s).Gives x t ∧ (brackets x t).Gives y r := by
  rw [postfixed]
  simp only [gives_bind_iff, gives_pure_iff, exists_prop]
  constructor
  · rintro ⟨x, t, hx, y', r', hy, rfl, rfl⟩
    exact ⟨x, t, hx, hy⟩
  · rintro ⟨x, t, hx, hy⟩
    exact ⟨x, t, hx, y, r, hy, rfl, rfl⟩

theorem brackets_of_ne (h : s.token ≠ .symbol .lbrack) :
    (brackets x s).Gives y r ↔ y = x ∧ r = s := by
  unfold brackets
  split
  · exact absurd rfl h
  · exact gives_pure_iff

/-- What follows the key of a bracket: the node that it makes of the operand, and the
stream after the bracket. -/
inductive AfterKey (x key : Expr Pos) : TokenStream → Expr Pos → TokenStream → Prop where
  | get {q t} : AfterKey x key (.cons ⟨.symbol .rbrack, q⟩ t) (.select x.ann .get x key) t
  | delete {q q' t} :
      AfterKey x key (.cons ⟨.symbol .colon, q⟩ (.cons ⟨.symbol .rbrack, q'⟩ t))
        (.select x.ann .delete x key) t
  | update {q t value q' t'} : t.token ≠ .symbol .rbrack →
      (binary 0 t).Gives value (.cons ⟨.symbol .rbrack, q'⟩ t') →
      AfterKey x key (.cons ⟨.symbol .colon, q⟩ t) (.store x.ann .update x key value) t'

theorem AfterKey.lt {key : Expr Pos} (h : AfterKey x key s y r) : r.length < s.length := by
  cases h with
  | get => exact Nat.lt_succ_self _
  | delete => exact Nat.lt_succ_of_lt (Nat.lt_succ_self _)
  | update _ hvalue => exact Nat.lt_succ_of_lt (Nat.lt_of_succ_lt hvalue.lt)

theorem brackets_of_lbrack {p : Pos} {t : TokenStream} :
    (brackets x (.cons ⟨.symbol .lbrack, p⟩ t)).Gives y r ↔
      ∃ key t₁ z t₂, (binary 0 t).Gives key t₁ ∧ AfterKey x key t₁ z t₂ ∧
        (brackets z t₂).Gives y r := by
  rw [brackets]
  simp only [gives_bind_iff]
  constructor
  · rintro ⟨key, t₁, hkey, h⟩
    -- a colon makes it a deletion or an update, and anything else a lookup
    by_cases hcolon : t₁.token = .symbol .colon
    · obtain ⟨q, t₂, rfl⟩ := TokenStream.token_eq_symbol_iff.1 hcolon
      rw [got_cons] at h
      by_cases hbrack : t₂.token = .symbol .rbrack
      · obtain ⟨q', t₃, rfl⟩ := TokenStream.token_eq_symbol_iff.1 hbrack
        simp only [got_cons, gives_bind_iff, gives_pure_iff, exists_prop] at h
        obtain ⟨y', r', hy, rfl, rfl⟩ := h
        exact ⟨key, _, _, t₃, hkey, .delete, hy⟩
      · simp only [got_of_token_ne (w := .symbol .rbrack) hbrack, gives_bind_iff, gives_pure_iff,
          want_gives_iff, exists_prop] at h
        obtain ⟨value, _, hvalue, q', t₃, rfl, y', r', hy, rfl, rfl⟩ := h
        exact ⟨key, _, _, t₃, hkey, .update hbrack hvalue, hy⟩
    · simp only [got_of_token_ne (w := .symbol .colon) hcolon, gives_bind_iff, gives_pure_iff,
        want_gives_iff, exists_prop] at h
      obtain ⟨q, t₂, rfl, y', r', hy, rfl, rfl⟩ := h
      exact ⟨key, _, _, t₂, hkey, .get, hy⟩
  · rintro ⟨key, t₁, z, t₂, hkey, hafter, hy⟩
    refine ⟨key, t₁, hkey, ?_⟩
    cases hafter with
    | @get q =>
      have hcolon : (TokenStream.cons ⟨.symbol .rbrack, q⟩ t₂).token ≠ .symbol .colon := by
        intro h
        cases h
      simp only [got_of_token_ne (w := .symbol .colon) hcolon, gives_bind_iff, gives_pure_iff,
        want_gives_iff, exists_prop]
      exact ⟨q, t₂, rfl, y, r, hy, rfl, rfl⟩
    | delete =>
      simp only [got_cons, gives_bind_iff, gives_pure_iff, exists_prop]
      exact ⟨y, r, hy, rfl, rfl⟩
    | @update _ _ value q' _ hbrack hvalue =>
      simp only [got_cons, got_of_token_ne (w := .symbol .rbrack) hbrack, gives_bind_iff,
        gives_pure_iff, want_gives_iff, exists_prop]
      exact ⟨value, _, hvalue, q', t₂, rfl, y, r, hy, rfl, rfl⟩

section Operand

variable {p : Pos} {t : TokenStream}

/-- The words that an operand starts with. -/
theorem operand_front (h : (operand s).Gives y r) :
    (∃ p t, s = .cons ⟨.symbol .lbrack, p⟩ t) ∨ (∃ b p t, s = .cons ⟨.bool b, p⟩ t) ∨
      (∃ n p t, s = .cons ⟨.num n, p⟩ t) ∨ (∃ x p t, s = .cons ⟨.name x, p⟩ t) ∨
      ∃ p t, s = .cons ⟨.symbol .lparen, p⟩ t := by
  unfold operand at h
  split at h
  · exact .inl ⟨_, _, rfl⟩
  · exact .inr (.inl ⟨_, _, _, rfl⟩)
  · exact .inr (.inr (.inl ⟨_, _, _, rfl⟩))
  · exact .inr (.inr (.inr (.inl ⟨_, _, _, rfl⟩)))
  · exact .inr (.inr (.inr (.inr ⟨_, _, rfl⟩)))
  · exact absurd h not_gives_error

theorem operand_of_lbrack :
    (operand (.cons ⟨.symbol .lbrack, p⟩ t)).Gives y r ↔
      ∃ key q t₁ value q', (binary 0 t).Gives key (.cons ⟨.symbol .colon, q⟩ t₁) ∧
        (binary 0 t₁).Gives value (.cons ⟨.symbol .rbrack, q'⟩ r) ∧ y = .entry p key value := by
  rw [operand]
  simp only [gives_bind_iff, gives_pure_iff, want_gives_iff, exists_prop]
  constructor
  · rintro ⟨key, _, hk, q, t₁, rfl, value, _, hv, q', t₂, rfl, rfl, rfl⟩
    exact ⟨key, q, t₁, value, q', hk, hv, rfl⟩
  · rintro ⟨key, q, t₁, value, q', hk, hv, rfl⟩
    exact ⟨key, _, hk, q, t₁, rfl, value, _, hv, q', r, rfl, rfl, rfl⟩

theorem operand_of_bool {b : Bool} :
    (operand (.cons ⟨.bool b, p⟩ t)).Gives y r ↔ y = .bool p b ∧ r = t := by
  rw [operand]
  exact gives_pure_iff

theorem operand_of_num {n : Int64} :
    (operand (.cons ⟨.num n, p⟩ t)).Gives y r ↔ y = .int p n ∧ r = t := by
  rw [operand]
  exact gives_pure_iff

theorem operand_of_name {x : String} :
    (operand (.cons ⟨.name x, p⟩ t)).Gives y r ↔ y = .name p x ∧ r = t := by
  rw [operand]
  exact gives_pure_iff

theorem operand_of_lparen :
    (operand (.cons ⟨.symbol .lparen, p⟩ t)).Gives y r ↔
      ∃ q, (binary 0 t).Gives y (.cons ⟨.symbol .rparen, q⟩ r) := by
  rw [operand]
  simp only [gives_bind_iff, gives_pure_iff, want_gives_iff, exists_prop]
  constructor
  · rintro ⟨x, _, hx, q, t₁, rfl, rfl, rfl⟩
    exact ⟨q, hx⟩
  · rintro ⟨q, hx⟩
    exact ⟨y, _, hx, q, r, rfl, rfl, rfl⟩

end Operand

theorem parenthesized_gives_iff :
    (parenthesized s).Gives y r ↔
      ∃ p t q, s = .cons ⟨.symbol .lparen, p⟩ t ∧
        (expr t).Gives y (.cons ⟨.symbol .rparen, q⟩ r) := by
  unfold parenthesized
  simp only [gives_bind_iff, gives_pure_iff, want_gives_iff, exists_prop]
  constructor
  · rintro ⟨p, t, rfl, x, _, hx, q, t₁, rfl, rfl, rfl⟩
    exact ⟨p, t, q, rfl, hx⟩
  · rintro ⟨p, t, q, rfl, hx⟩
    exact ⟨p, t, rfl, y, _, hx, q, r, rfl, rfl, rfl⟩

/-! ## Statements -/

theorem block_gives_iff {b : Block Pos} :
    (block s).Gives b r ↔
      ∃ p t body q, s = .cons ⟨.symbol .lbrace, p⟩ t ∧
        (seq t).Gives body (.cons ⟨.symbol .rbrace, q⟩ r) ∧ b = .mk p body q := by
  rw [block]
  simp only [gives_bind_iff, gives_pure_iff, want_gives_iff, exists_prop]
  constructor
  · rintro ⟨p, t, rfl, body, _, hbody, q, t₁, rfl, rfl, rfl⟩
    exact ⟨p, t, body, q, rfl, hbody, rfl⟩
  · rintro ⟨p, t, body, q, rfl, hbody, rfl⟩
    exact ⟨p, t, rfl, body, _, hbody, q, r, rfl, rfl, rfl⟩

/-- After a statement a sequence ends, or there is a separator, after which the sequence
ends if it can and goes on otherwise. -/
theorem seq_gives_iff {body : Seq Pos} :
    (seq s).Gives body r ↔
      ∃ first t, (stmt s).Gives first t ∧
        ((t.token ≠ .symbol .semi ∧ r = t ∧ body = .cons s.pos first (.empty t.pos)) ∨
          ∃ p t', t = .cons ⟨.symbol .semi, p⟩ t' ∧
            ((endsSeq t' = true ∧ r = t' ∧ body = .cons s.pos first (.empty t'.pos)) ∨
              (endsSeq t' = false ∧ ∃ rest, (seq t').Gives rest r ∧
                body = .cons s.pos first rest))) := by
  rw [seq]
  simp only [gives_bind_iff]
  refine exists_congr fun first => exists_congr fun t => ?_
  rw [← exists_prop]
  refine exists_congr fun _ => ?_
  by_cases hsemi : t.token = .symbol .semi
  · obtain ⟨p, t', rfl⟩ := TokenStream.token_eq_symbol_iff.1 hsemi
    rw [got_cons]
    cases hends : endsSeq t' with
    | true =>
      simp only [hends, if_true, gives_pure_iff]
      constructor
      · rintro ⟨rfl, rfl⟩
        exact .inr ⟨p, r, rfl, .inl ⟨hends, rfl, rfl⟩⟩
      · rintro (⟨hne, _⟩ | ⟨_, _, h, ⟨_, rfl, rfl⟩ | ⟨hends', _⟩⟩)
        · exact absurd hsemi hne
        · cases h
          exact ⟨rfl, rfl⟩
        · cases h
          rw [hends] at hends'
          cases hends'
    | false =>
      simp only [hends, Bool.false_eq_true, if_false, gives_bind_iff, gives_pure_iff, exists_prop]
      constructor
      · rintro ⟨rest, _, hrest, rfl, rfl⟩
        exact .inr ⟨p, t', rfl, .inr ⟨hends, rest, hrest, rfl⟩⟩
      · rintro (⟨hne, _⟩ | ⟨_, _, h, ⟨hends', _⟩ | ⟨_, rest, hrest, rfl⟩⟩)
        · exact absurd hsemi hne
        · cases h
          rw [hends] at hends'
          cases hends'
        · cases h
          exact ⟨rest, r, hrest, rfl, rfl⟩
  · rw [got_of_token_ne (w := .symbol .semi) hsemi]
    simp only [gives_pure_iff]
    constructor
    · rintro ⟨rfl, rfl⟩
      exact .inl ⟨hsemi, rfl, rfl⟩
    · rintro (⟨_, rfl, rfl⟩ | ⟨_, _, rfl, _⟩)
      · exact ⟨rfl, rfl⟩
      · exact absurd rfl hsemi

section Statement

variable {c : Stmt Pos} {p : Pos} {t : TokenStream}

/-- The words that a statement starts with. -/
theorem stmt_front (h : (stmt s).Gives c r) :
    (∃ p t, s = .cons ⟨.keyword .varKw, p⟩ t) ∨ (∃ x p t, s = .cons ⟨.name x, p⟩ t) ∨
      (∃ p t, s = .cons ⟨.keyword .printKw, p⟩ t) ∨ (∃ p t, s = .cons ⟨.keyword .ifKw, p⟩ t) ∨
      ∃ p t, s = .cons ⟨.keyword .forKw, p⟩ t := by
  unfold stmt at h
  split at h
  · exact .inl ⟨_, _, rfl⟩
  · exact .inr (.inl ⟨_, _, _, rfl⟩)
  · exact .inr (.inr (.inl ⟨_, _, rfl⟩))
  · exact .inr (.inr (.inr (.inl ⟨_, _, rfl⟩)))
  · exact .inr (.inr (.inr (.inr ⟨_, _, rfl⟩)))
  · exact absurd h not_gives_error

theorem stmt_of_var :
    (stmt (.cons ⟨.keyword .varKw, p⟩ t)).Gives c r ↔
      ∃ x q q' t' value, t = .cons ⟨.name x, q⟩ (.cons ⟨.symbol .assign, q'⟩ t') ∧
        (expr t').Gives value r ∧ c = .var p ⟨q, x⟩ value := by
  rw [stmt]
  simp only [gives_bind_iff, gives_pure_iff, want_gives_iff, ident_gives_iff, exists_prop]
  constructor
  · rintro ⟨⟨q, x⟩, _, rfl, q', t', rfl, value, _, hv, rfl, rfl⟩
    exact ⟨x, q, q', t', value, rfl, hv, rfl⟩
  · rintro ⟨x, q, q', t', value, rfl, hv, rfl⟩
    exact ⟨⟨q, x⟩, _, rfl, q', t', rfl, value, r, hv, rfl, rfl⟩

theorem stmt_of_name {x : String} :
    (stmt (.cons ⟨.name x, p⟩ t)).Gives c r ↔
      ∃ q t' value, t = .cons ⟨.symbol .assign, q⟩ t' ∧ (expr t').Gives value r ∧
        c = .assign p ⟨p, x⟩ value := by
  rw [stmt]
  simp only [gives_bind_iff, gives_pure_iff, want_gives_iff, exists_prop]
  constructor
  · rintro ⟨q, t', rfl, value, _, hv, rfl, rfl⟩
    exact ⟨q, t', value, rfl, hv, rfl⟩
  · rintro ⟨q, t', value, rfl, hv, rfl⟩
    exact ⟨q, t', rfl, value, r, hv, rfl, rfl⟩

theorem stmt_of_print :
    (stmt (.cons ⟨.keyword .printKw, p⟩ t)).Gives c r ↔
      ∃ x, (expr t).Gives x r ∧ c = .print p x := by
  rw [stmt]
  simp only [gives_bind_iff, gives_pure_iff, exists_prop]
  constructor
  · rintro ⟨x, _, hx, rfl, rfl⟩
    exact ⟨x, hx, rfl⟩
  · rintro ⟨x, hx, rfl⟩
    exact ⟨x, r, hx, rfl, rfl⟩

/-- An `else` belongs to the `if` whose block it follows. -/
theorem stmt_of_if :
    (stmt (.cons ⟨.keyword .ifKw, p⟩ t)).Gives c r ↔
      ∃ cond t₁ yes t₂, (parenthesized t).Gives cond t₁ ∧ (block t₁).Gives yes t₂ ∧
        ((t₂.token ≠ .keyword .elseKw ∧ r = t₂ ∧ c = .ifThen p cond yes) ∨
          ∃ q t₃ no, t₂ = .cons ⟨.keyword .elseKw, q⟩ t₃ ∧ (block t₃).Gives no r ∧
            c = .ifElse p cond yes no) := by
  rw [stmt]
  simp only [gives_bind_iff]
  constructor
  · rintro ⟨cond, t₁, hcond, yes, t₂, hyes, h⟩
    refine ⟨cond, t₁, yes, t₂, hcond, hyes, ?_⟩
    by_cases helse : t₂.token = .keyword .elseKw
    · obtain ⟨q, t₃, rfl⟩ := TokenStream.token_eq_keyword_iff.1 helse
      simp only [got_cons, gives_bind_iff, gives_pure_iff, exists_prop] at h
      obtain ⟨no, _, hno, rfl, rfl⟩ := h
      exact .inr ⟨q, t₃, no, rfl, hno, rfl⟩
    · simp only [got_of_token_ne (w := .keyword .elseKw) helse, gives_pure_iff] at h
      exact .inl ⟨helse, h.2, h.1⟩
  · rintro ⟨cond, t₁, yes, t₂, hcond, hyes, h⟩
    refine ⟨cond, t₁, hcond, yes, t₂, hyes, ?_⟩
    rcases h with ⟨helse, rfl, rfl⟩ | ⟨q, t₃, no, rfl, hno, rfl⟩
    · simp only [got_of_token_ne (w := .keyword .elseKw) helse, gives_pure_iff, and_self]
    · simp only [got_cons, gives_bind_iff, gives_pure_iff, exists_prop]
      exact ⟨no, r, hno, rfl, rfl⟩

theorem stmt_of_for :
    (stmt (.cons ⟨.keyword .forKw, p⟩ t)).Gives c r ↔
      ∃ x q₁ q₂ q₃ q₄ t₁ dict q₅ t₂ body,
        t = .cons ⟨.symbol .lparen, q₁⟩ (.cons ⟨.keyword .varKw, q₂⟩
          (.cons ⟨.name x, q₃⟩ (.cons ⟨.keyword .ofKw, q₄⟩ t₁))) ∧
        (expr t₁).Gives dict (.cons ⟨.symbol .rparen, q₅⟩ t₂) ∧ (block t₂).Gives body r ∧
        c = .forEach p ⟨q₃, x⟩ dict body := by
  rw [stmt]
  simp only [gives_bind_iff, gives_pure_iff, want_gives_iff, ident_gives_iff, exists_prop]
  constructor
  · rintro ⟨q₁, _, rfl, q₂, _, rfl, ⟨q₃, x⟩, _, rfl, q₄, t₁, rfl, dict, _, hd, q₅, t₂, rfl, body,
      _, hb, rfl, rfl⟩
    exact ⟨x, q₁, q₂, q₃, q₄, t₁, dict, q₅, t₂, body, rfl, hd, hb, rfl⟩
  · rintro ⟨x, q₁, q₂, q₃, q₄, t₁, dict, q₅, t₂, body, rfl, hd, hb, rfl⟩
    exact ⟨q₁, _, rfl, q₂, _, rfl, ⟨q₃, x⟩, _, rfl, q₄, t₁, rfl, dict, _, hd, q₅, t₂, rfl, body,
      r, hb, rfl, rfl⟩

end Statement

end Parser

/-- A program is a sequence and then the end of the source. -/
theorem TokenStream.program_eq_ok_iff {s : TokenStream} {p : Program Pos} :
    s.program = .ok p ↔
      ∃ body q, (Parser.seq s).Gives body (.eof q) ∧ p = ⟨s.pos, body⟩ := by
  unfold program
  cases hs : Parser.seq s with
  | error e =>
    constructor
    · intro h
      cases h
    · rintro ⟨_, _, h, _⟩
      exact absurd h Parser.Result.not_gives_error
  | ok step =>
    obtain ⟨body, rest, hlt⟩ := step
    constructor
    · intro h
      cases rest with
      | eof q =>
        cases h
        exact ⟨body, q, ⟨hlt, rfl⟩, rfl⟩
      | failed e => cases h
      | cons l t => cases h
    · rintro ⟨_, q, ⟨_, h⟩, rfl⟩
      cases h
      rfl

/-- An operand is an expression by itself where neither a bracket nor an operator follows. -/
theorem Parser.expr_of_operand {w : Word} {q : Pos} {y : Expr Pos} {rest : TokenStream}
    (hw : Parser.isUnary w = false)
    (hy : (Parser.operand (.cons ⟨w, q⟩ rest)).Gives y rest)
    (hbracket : rest.token ≠ .symbol .lbrack) (hoperator : rest.token.precedence ≤ 0) :
    (Parser.expr (.cons ⟨w, q⟩ rest)).Gives y rest := by
  refine Parser.binary_gives_iff.2 ⟨y, rest, ?_, (Parser.binaryTail_of_le hoperator).2 ⟨rfl, rfl⟩⟩
  refine (Parser.unary_of_not_isUnary ?_).2
    (Parser.postfixed_gives_iff.2 ⟨y, rest, hy, (Parser.brackets_of_ne hbracket).2 ⟨rfl, rfl⟩⟩)
  rintro _ _ ⟨⟩
  exact hw

/-- The program that prints one operand, with a separator behind it or without one. -/
theorem TokenStream.program_print {w : Word} {p q last : Pos} {y : Expr Pos}
    {rest : TokenStream} (hw : Parser.isUnary w = false)
    (hy : (Parser.operand (.cons ⟨w, q⟩ rest)).Gives y rest)
    (hrest : rest = .eof last ∨ ∃ semi, rest = .cons ⟨.symbol .semi, semi⟩ (.eof last)) :
    (TokenStream.cons ⟨.keyword .printKw, p⟩ (.cons ⟨w, q⟩ rest)).program =
      .ok ⟨p, .cons p (.print p y) (.empty last)⟩ := by
  have hexpr : (Parser.expr (.cons ⟨w, q⟩ rest)).Gives y rest := by
    rcases hrest with rfl | ⟨semi, rfl⟩
    · exact Parser.expr_of_operand hw hy nofun (Nat.le_refl 0)
    · exact Parser.expr_of_operand hw hy nofun (Nat.le_refl 0)
  have hstmt := (Parser.stmt_of_print (p := p)).2 ⟨y, hexpr, rfl⟩
  refine program_eq_ok_iff.2 ⟨_, last, Parser.seq_gives_iff.2 ⟨_, _, hstmt, ?_⟩, rfl⟩
  rcases hrest with rfl | ⟨semi, rfl⟩
  · exact .inl ⟨nofun, rfl, rfl⟩
  · exact .inr ⟨semi, _, rfl, .inl ⟨rfl, rfl, rfl⟩⟩

/-- The program of one condition with a block that prints a name. -/
theorem TokenStream.program_ifPrint {p q₁ q₂ q₃ q₄ q₅ q₆ q₇ last : Pos} {x y : String} :
    (TokenStream.cons ⟨.keyword .ifKw, p⟩ (.cons ⟨.symbol .lparen, q₁⟩ (.cons ⟨.name x, q₂⟩
      (.cons ⟨.symbol .rparen, q₃⟩ (.cons ⟨.symbol .lbrace, q₄⟩ (.cons ⟨.keyword .printKw, q₅⟩
        (.cons ⟨.name y, q₆⟩ (.cons ⟨.symbol .rbrace, q₇⟩ (.eof last))))))))).program =
      .ok ⟨p, .cons p (.ifThen p (.name q₂ x)
        (.mk q₄ (.cons q₅ (.print q₅ (.name q₆ y)) (.empty q₇)) q₇)) (.empty last)⟩ := by
  have hname : ∀ {x : String} {q : Pos} {rest : TokenStream}, rest.token ≠ .symbol .lbrack →
      rest.token.precedence ≤ 0 →
      (Parser.expr (.cons ⟨.name x, q⟩ rest)).Gives (.name q x) rest := fun hbracket hoperator =>
    Parser.expr_of_operand rfl (Parser.operand_of_name.2 ⟨rfl, rfl⟩) hbracket hoperator
  have hprint : (Parser.seq (.cons ⟨.keyword .printKw, q₅⟩ (.cons ⟨.name y, q₆⟩
      (.cons ⟨.symbol .rbrace, q₇⟩ (.eof last))))).Gives
        (.cons q₅ (.print q₅ (.name q₆ y)) (.empty q₇)) (.cons ⟨.symbol .rbrace, q₇⟩ (.eof last)) :=
    Parser.seq_gives_iff.2 ⟨_, _,
      Parser.stmt_of_print.2 ⟨_, hname (by rintro ⟨⟩) (Nat.le_refl 0), rfl⟩, .inl ⟨(by rintro ⟨⟩), rfl, rfl⟩⟩
  have hblock := Parser.block_gives_iff.2 ⟨q₄, _, _, _, rfl, hprint, rfl⟩
  have hcond : ∀ {t : TokenStream}, (Parser.parenthesized (.cons ⟨.symbol .lparen, q₁⟩
      (.cons ⟨.name x, q₂⟩ (.cons ⟨.symbol .rparen, q₃⟩ t)))).Gives (.name q₂ x) t :=
    Parser.parenthesized_gives_iff.2 ⟨q₁, _, q₃, rfl, hname (by rintro ⟨⟩) (Nat.le_refl 0)⟩
  have hif := (Parser.stmt_of_if (p := p)).2 ⟨_, _, _, _, hcond, hblock, .inl ⟨(by rintro ⟨⟩), rfl, rfl⟩⟩
  exact program_eq_ok_iff.2 ⟨_, last,
    Parser.seq_gives_iff.2 ⟨_, _, hif, .inl ⟨(by rintro ⟨⟩), rfl, rfl⟩⟩, rfl⟩

/-- The program that declares a name and prints a name. -/
theorem TokenStream.program_varPrint {p q₁ q₂ q₃ q₄ q₅ q₆ last : Pos} {x y : String} {n : Int64} :
    (TokenStream.cons ⟨.keyword .varKw, p⟩ (.cons ⟨.name x, q₁⟩ (.cons ⟨.symbol .assign, q₂⟩
      (.cons ⟨.num n, q₃⟩ (.cons ⟨.symbol .semi, q₄⟩ (.cons ⟨.keyword .printKw, q₅⟩
        (.cons ⟨.name y, q₆⟩ (.eof last)))))))).program =
      .ok ⟨p, .cons p (.var p ⟨q₁, x⟩ (.int q₃ n))
        (.cons q₅ (.print q₅ (.name q₆ y)) (.empty last))⟩ := by
  have hvalue : (Parser.expr (.cons ⟨.num n, q₃⟩ (.cons ⟨.symbol .semi, q₄⟩
      (.cons ⟨.keyword .printKw, q₅⟩ (.cons ⟨.name y, q₆⟩ (.eof last)))))).Gives (.int q₃ n) _ :=
    Parser.expr_of_operand rfl (Parser.operand_of_num.2 ⟨rfl, rfl⟩) nofun (Nat.le_refl 0)
  have hname : (Parser.expr (.cons ⟨.name y, q₆⟩ (.eof last))).Gives (.name q₆ y) (.eof last) :=
    Parser.expr_of_operand rfl (Parser.operand_of_name.2 ⟨rfl, rfl⟩) nofun (Nat.le_refl 0)
  have hvar := (Parser.stmt_of_var (p := p)).2 ⟨x, q₁, q₂, _, _, rfl, hvalue, rfl⟩
  have hprint := Parser.seq_gives_iff.2 ⟨_, _,
    (Parser.stmt_of_print (p := q₅)).2 ⟨_, hname, rfl⟩, .inl ⟨nofun, rfl, rfl⟩⟩
  exact program_eq_ok_iff.2 ⟨_, last,
    Parser.seq_gives_iff.2 ⟨_, _, hvar, .inr ⟨q₄, _, rfl, .inr ⟨rfl, _, hprint, rfl⟩⟩⟩, rfl⟩

end PairDict
