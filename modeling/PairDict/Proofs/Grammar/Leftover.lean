import PairDict.Proofs.Grammar.Reading

/-! # What a reader leaves

Whether a reader succeeds, what it leaves of the stream, and what error it gives otherwise,
does not depend on the values that it builds.  `Result.left` forgets these values, and then
a reader is a function from streams to streams that may fail, and a reader which calls
others one after another is their composition in `Except`.

There is one equation for each reader and each word that it decides on.  Errors are part of
these equations; what succeeding readers give is said by the lemmas about `Result.Gives`.
-/
namespace PairDict

namespace Parser

variable {β γ : Type} {n k : Nat}

/-- The stream after what was read, or the error. -/
def Result.left (x : Result β n) : Except SyntaxError TokenStream := x.map Step.rest

namespace Result

variable {x : Result β n} {f : Step β n → Result γ k} {r : TokenStream}

theorem left_eq_ok_iff : x.left = .ok r ↔ ∃ b, x.Gives b r := by
  cases x with
  | error e =>
    constructor
    · intro h
      cases h
    · rintro ⟨b, h⟩
      exact absurd h not_gives_error
  | ok step =>
    obtain ⟨b, t, ht⟩ := step
    constructor
    · intro h
      cases h
      exact ⟨b, ht, rfl⟩
    · rintro ⟨c, _, h⟩
      cases h
      rfl

theorem left_eq_error_iff {e : SyntaxError} : x.left = .error e ↔ x = .error e := by
  cases x with
  | error e' =>
    constructor
    · intro h
      cases h
      rfl
    · intro h
      cases h
      rfl
  | ok step =>
    constructor
    · intro h
      cases h
    · intro h
      cases h

theorem lt_of_left_eq_ok (h : x.left = .ok r) : r.length < n := by
  obtain ⟨b, hb⟩ := left_eq_ok_iff.1 h
  exact hb.lt

/-- One reader after another. -/
theorem left_bind {g : TokenStream → Except SyntaxError TokenStream}
    (h : ∀ b t ht, left (f ⟨b, t, ht⟩) = g t) : left (x >>= f) = x.left >>= g := by
  cases x with
  | error e => rfl
  | ok step => exact h step.value step.rest step.lt

/-- A reader after which nothing is read. -/
theorem left_last (h : ∀ b t ht, left (f ⟨b, t, ht⟩) = .ok t) : left (x >>= f) = x.left := by
  cases x with
  | error e => rfl
  | ok step => exact h step.value step.rest step.lt

end Result

open Result

variable {s t : TokenStream} {p : Pos} {level : Nat}

/-! ## Single words -/

theorem left_want_cons (w : Word) (p : Pos) (t : TokenStream) :
    (want w (.cons ⟨w, p⟩ t)).left = .ok t := by
  rw [want, if_pos rfl]
  rfl

theorem left_want_of_ne {w : Word} (h : ∀ p t, s ≠ .cons ⟨w, p⟩ t) :
    (want w s).left = .error (reject (some w.token) s) := by
  unfold want
  split
  · next l t =>
    have hl : ¬ l.word = w := fun hl => h l.pos t (hl ▸ rfl)
    rw [if_neg hl]
    rfl
  · rfl

theorem left_ident_cons (x : String) (p : Pos) (t : TokenStream) :
    (ident (.cons ⟨.name x, p⟩ t)).left = .ok t := rfl

theorem left_ident_of_ne (h : s.token ≠ .name) :
    (ident s).left = .error (reject (some .name) s) := by
  unfold ident
  split
  · exact absurd rfl h
  · rfl

/-! ## Expressions

The loops go on with the expression so far, and what they leave does not depend on it. -/

/-- An expression that stands for any other. -/
def anyExpr : Expr Pos := .bool .none true

/-- What the loop over operators leaves. -/
def operatorsLeft (level : Nat) (s : TokenStream) : Except SyntaxError TokenStream :=
  (binaryTail level anyExpr s).left

/-- What the loop over brackets leaves. -/
def bracketsLeft (s : TokenStream) : Except SyntaxError TokenStream := (brackets anyExpr s).left

/-- What is left after the colon of a slot: the bracket, or a value and then the bracket. -/
def valueLeft (s : TokenStream) : Except SyntaxError TokenStream :=
  match got (.symbol .rbrack) s with
  | some ⟨t, _⟩ => .ok t
  | none => (binary 0 s).left >>= fun t => (want (.symbol .rbrack) t).left

/-- What is left after the slot of a key and the bracket that closes it. -/
def slotLeft (s : TokenStream) : Except SyntaxError TokenStream :=
  match got (.symbol .colon) s with
  | none => (want (.symbol .rbrack) s).left
  | some ⟨t, _⟩ => valueLeft t

theorem binaryTail_left (x x' : Expr Pos) : ∀ s : TokenStream,
    (binaryTail level x s).left = (binaryTail level x' s).left
  | .eof _ | .failed _ => by
    unfold binaryTail
    rfl
  | .cons l t => by
    unfold binaryTail
    by_cases hl : level < l.word.token.precedence
    · simp only [if_pos hl]
      cases hy : binary l.word.token.precedence t with
      | error e => rfl
      | ok step =>
        obtain ⟨y, t', ht'⟩ := step
        have hlt : t'.length < t.length := ht'
        have hleft := binaryTail_left (combine l.word.token x y) (combine l.word.token x' y) t'
        refine ((left_last ?_).trans hleft).trans (left_last ?_).symm <;> exact fun _ _ _ => rfl
    · simp only [if_neg hl]
      rfl
termination_by s => s.length

theorem left_binary : (binary level s).left = (unary s).left >>= operatorsLeft level := by
  rw [binary]
  refine left_bind fun x t _ => (left_last ?_).trans (binaryTail_left x anyExpr t)
  exact fun _ _ _ => rfl

theorem operatorsLeft_of_le (h : s.token.precedence ≤ level) : operatorsLeft level s = .ok s := by
  rw [operatorsLeft]
  exact left_eq_ok_iff.2 ⟨anyExpr, (binaryTail_of_le h).2 ⟨rfl, rfl⟩⟩

theorem operatorsLeft_cons {l : Lexeme} (h : level < l.word.token.precedence) :
    operatorsLeft level (.cons l t) =
      (binary l.word.token.precedence t).left >>= operatorsLeft level := by
  rw [operatorsLeft, binaryTail, if_pos h]
  refine left_bind fun y t' _ => (left_last ?_).trans (binaryTail_left _ anyExpr t')
  exact fun _ _ _ => rfl

theorem left_unary_of_isUnary {l : Lexeme} (h : isUnary l.word = true) :
    (unary (.cons l t)).left = (postfixed t).left := by
  rw [unary, if_pos h]
  refine left_last ?_
  exact fun _ _ _ => rfl

theorem left_unary_of_not_isUnary (h : ∀ l t, s = .cons l t → isUnary l.word = false) :
    (unary s).left = (postfixed s).left := by
  unfold unary
  split
  · next l t =>
    have hl : isUnary l.word = false := h l t rfl
    rw [hl, if_neg Bool.false_ne_true]
  · rfl

/-- A bracket, if the brackets after it leave the same whatever node they go on with. -/
theorem brackets_lbrack_left
    (hrest : ∀ z t', t'.length < t.length → (brackets z t').left = bracketsLeft t') (x : Expr Pos) :
    (brackets x (.cons ⟨.symbol .lbrack, p⟩ t)).left =
      (binary 0 t).left >>= fun t₁ => slotLeft t₁ >>= bracketsLeft := by
  rw [brackets]
  refine left_bind fun key t₁ h₁ => ?_
  unfold slotLeft
  dsimp only
  cases got (.symbol .colon) t₁ with
  | none =>
    refine left_bind fun _ t₂ h₂ => (left_last ?_).trans (hrest _ t₂ (Nat.lt_trans h₂ h₁))
    exact fun _ _ _ => rfl
  | some afterColon =>
    obtain ⟨t₂, h₂⟩ := afterColon
    unfold valueLeft
    dsimp only
    cases got (.symbol .rbrack) t₂ with
    | some afterBracket =>
      obtain ⟨t₃, h₃⟩ := afterBracket
      have hlt : t₃.length < t.length := Nat.lt_trans h₃ (Nat.lt_trans h₂ h₁)
      refine (left_last ?_).trans (hrest _ t₃ hlt)
      exact fun _ _ _ => rfl
    | none =>
      rw [bind_assoc]
      refine left_bind fun value t₃ h₃ => left_bind fun _ t₄ h₄ => ?_
      have hlt : t₄.length < t.length :=
        Nat.lt_trans h₄ (Nat.lt_trans h₃ (Nat.lt_trans h₂ h₁))
      refine (left_last ?_).trans (hrest _ t₄ hlt)
      exact fun _ _ _ => rfl

theorem brackets_left (x : Expr Pos) (s : TokenStream) : (brackets x s).left = bracketsLeft s := by
  by_cases hs : s.token = .symbol .lbrack
  · obtain ⟨p, t, hst⟩ := TokenStream.token_eq_symbol_iff.1 hs
    have hlen : s.length = t.length + 1 := by rw [hst]; rfl
    have hrest : ∀ z t', t'.length < t.length → (brackets z t').left = bracketsLeft t' :=
      fun z t' hlt => brackets_left z t'
    rw [bracketsLeft, hst, brackets_lbrack_left hrest x, brackets_lbrack_left hrest anyExpr]
  · rw [bracketsLeft, left_eq_ok_iff.2 ⟨x, (brackets_of_ne hs).2 ⟨rfl, rfl⟩⟩,
      left_eq_ok_iff.2 ⟨anyExpr, (brackets_of_ne hs).2 ⟨rfl, rfl⟩⟩]
termination_by s.length

theorem slotLeft_lt {r : TokenStream} (h : slotLeft s = .ok r) : r.length < s.length := by
  unfold slotLeft at h
  split at h
  · exact lt_of_left_eq_ok h
  · next t ht _ =>
    unfold valueLeft at h
    split at h
    · next t' ht' _ =>
      cases h
      exact Nat.lt_trans ht' ht
    · cases hvalue : (binary 0 t).left with
      | error e =>
        rw [hvalue] at h
        cases h
      | ok t' =>
        rw [hvalue] at h
        exact Nat.lt_trans (lt_of_left_eq_ok h) (Nat.lt_trans (lt_of_left_eq_ok hvalue) ht)

theorem left_postfixed : (postfixed s).left = (operand s).left >>= bracketsLeft := by
  rw [postfixed]
  refine left_bind fun x t _ => (left_last ?_).trans (brackets_left x t)
  exact fun _ _ _ => rfl

theorem bracketsLeft_of_ne (h : s.token ≠ .symbol .lbrack) : bracketsLeft s = .ok s :=
  left_eq_ok_iff.2 ⟨anyExpr, (brackets_of_ne h).2 ⟨rfl, rfl⟩⟩

theorem bracketsLeft_lbrack (p : Pos) (t : TokenStream) :
    bracketsLeft (.cons ⟨.symbol .lbrack, p⟩ t) =
      (binary 0 t).left >>= fun t₁ => slotLeft t₁ >>= bracketsLeft :=
  brackets_lbrack_left (fun z t' _ => brackets_left z t') anyExpr

theorem slotLeft_of_ne (h : s.token ≠ .symbol .colon) :
    slotLeft s = (want (.symbol .rbrack) s).left := by
  rw [slotLeft, got_of_token_ne (w := .symbol .colon) h]

theorem slotLeft_colon (p : Pos) (t : TokenStream) :
    slotLeft (.cons ⟨.symbol .colon, p⟩ t) = valueLeft t := by
  rw [slotLeft, got_cons]

theorem valueLeft_rbrack (p : Pos) (t : TokenStream) :
    valueLeft (.cons ⟨.symbol .rbrack, p⟩ t) = .ok t := by
  rw [valueLeft, got_cons]

theorem valueLeft_of_ne (h : s.token ≠ .symbol .rbrack) :
    valueLeft s = (binary 0 s).left >>= fun t => (want (.symbol .rbrack) t).left := by
  rw [valueLeft, got_of_token_ne (w := .symbol .rbrack) h]

/-- The words that an operand starts with. -/
def startsOperand : Word → Bool
  | .symbol .lbrack | .bool _ | .num _ | .name _ | .symbol .lparen => true
  | _ => false

theorem left_operand_of_not (h : ∀ l t, s = .cons l t → startsOperand l.word = false) :
    (operand s).left = .error (reject none s) := by
  unfold operand
  split
  · cases h _ _ rfl
  · cases h _ _ rfl
  · cases h _ _ rfl
  · cases h _ _ rfl
  · cases h _ _ rfl
  · rfl

/-- Literals and variables are single words. -/
theorem left_operand_word {w : Word} (h : w.token = .bool ∨ w.token = .num ∨ w.token = .name)
    (p : Pos) (t : TokenStream) : (operand (.cons ⟨w, p⟩ t)).left = .ok t := by
  cases w with
  | bool b => exact left_eq_ok_iff.2 ⟨_, operand_of_bool.2 ⟨rfl, rfl⟩⟩
  | num n => exact left_eq_ok_iff.2 ⟨_, operand_of_num.2 ⟨rfl, rfl⟩⟩
  | name x => exact left_eq_ok_iff.2 ⟨_, operand_of_name.2 ⟨rfl, rfl⟩⟩
  | symbol y | keyword k => rcases h with h | h | h <;> cases h

theorem left_operand_lbrack (p : Pos) (t : TokenStream) :
    (operand (.cons ⟨.symbol .lbrack, p⟩ t)).left =
      (binary 0 t).left >>= fun t₁ => (want (.symbol .colon) t₁).left >>= fun t₂ =>
        (binary 0 t₂).left >>= fun t₃ => (want (.symbol .rbrack) t₃).left := by
  rw [operand]
  refine left_bind fun _ t₁ _ => left_bind fun _ t₂ _ => left_bind fun _ t₃ _ => left_last ?_
  exact fun _ _ _ => rfl

theorem left_operand_lparen (p : Pos) (t : TokenStream) :
    (operand (.cons ⟨.symbol .lparen, p⟩ t)).left =
      (binary 0 t).left >>= fun t₁ => (want (.symbol .rparen) t₁).left := by
  rw [operand]
  refine left_bind fun _ t₁ _ => left_last ?_
  exact fun _ _ _ => rfl

theorem left_parenthesized :
    (parenthesized s).left = (want (.symbol .lparen) s).left >>= fun t₁ =>
      (expr t₁).left >>= fun t₂ => (want (.symbol .rparen) t₂).left := by
  unfold parenthesized
  refine left_bind fun _ t₁ _ => left_bind fun _ t₂ _ => left_last ?_
  exact fun _ _ _ => rfl

/-! ## Statements -/

/-- What is left after a separator: more statements, if the sequence does not end. -/
def restLeft (s : TokenStream) : Except SyntaxError TokenStream :=
  if endsSeq s then .ok s else (seq s).left

/-- What is left after the statements that follow a first one, if any do. -/
def moreLeft (s : TokenStream) : Except SyntaxError TokenStream :=
  match got (.symbol .semi) s with
  | none => .ok s
  | some ⟨t, _⟩ => restLeft t

/-- What is left after an `else` and its block, if there is one. -/
def elseLeft (s : TokenStream) : Except SyntaxError TokenStream :=
  match got (.keyword .elseKw) s with
  | none => .ok s
  | some ⟨t, _⟩ => (block t).left

theorem left_seq : (seq s).left = (stmt s).left >>= moreLeft := by
  rw [seq]
  refine left_bind fun first t _ => ?_
  unfold moreLeft
  dsimp only
  cases got (.symbol .semi) t with
  | none => rfl
  | some afterSemi =>
    obtain ⟨t', _⟩ := afterSemi
    unfold restLeft
    dsimp only
    split
    · rfl
    · refine left_last ?_
      exact fun _ _ _ => rfl

theorem moreLeft_of_ne (h : s.token ≠ .symbol .semi) : moreLeft s = .ok s := by
  rw [moreLeft, got_of_token_ne (w := .symbol .semi) h]

theorem moreLeft_semi (p : Pos) (t : TokenStream) :
    moreLeft (.cons ⟨.symbol .semi, p⟩ t) = restLeft t := by
  rw [moreLeft, got_cons]

theorem left_block :
    (block s).left = (want (.symbol .lbrace) s).left >>= fun t₁ =>
      (seq t₁).left >>= fun t₂ => (want (.symbol .rbrace) t₂).left := by
  rw [block]
  refine left_bind fun _ t₁ _ => left_bind fun _ t₂ _ => left_last ?_
  exact fun _ _ _ => rfl

/-- The words that a statement starts with. -/
def startsStmt : Word → Bool
  | .keyword .varKw | .name _ | .keyword .printKw | .keyword .ifKw | .keyword .forKw => true
  | _ => false

theorem left_stmt_of_not (h : ∀ l t, s = .cons l t → startsStmt l.word = false) :
    (stmt s).left = .error (reject none s) := by
  unfold stmt
  split
  · cases h _ _ rfl
  · cases h _ _ rfl
  · cases h _ _ rfl
  · cases h _ _ rfl
  · cases h _ _ rfl
  · rfl

theorem left_stmt_var (p : Pos) (t : TokenStream) :
    (stmt (.cons ⟨.keyword .varKw, p⟩ t)).left =
      (ident t).left >>= fun t₁ => (want (.symbol .assign) t₁).left >>= fun t₂ =>
        (expr t₂).left := by
  rw [stmt]
  refine left_bind fun _ t₁ _ => left_bind fun _ t₂ _ => left_last ?_
  exact fun _ _ _ => rfl

theorem left_stmt_name (x : String) (p : Pos) (t : TokenStream) :
    (stmt (.cons ⟨.name x, p⟩ t)).left =
      (want (.symbol .assign) t).left >>= fun t₁ => (expr t₁).left := by
  rw [stmt]
  refine left_bind fun _ t₁ _ => left_last ?_
  exact fun _ _ _ => rfl

theorem left_stmt_print (p : Pos) (t : TokenStream) :
    (stmt (.cons ⟨.keyword .printKw, p⟩ t)).left = (expr t).left := by
  rw [stmt]
  refine left_last ?_
  exact fun _ _ _ => rfl

theorem left_stmt_if (p : Pos) (t : TokenStream) :
    (stmt (.cons ⟨.keyword .ifKw, p⟩ t)).left =
      (parenthesized t).left >>= fun t₁ => (block t₁).left >>= elseLeft := by
  rw [stmt]
  refine left_bind fun _ t₁ _ => left_bind fun _ t₂ _ => ?_
  unfold elseLeft
  dsimp only
  cases got (.keyword .elseKw) t₂ with
  | none => rfl
  | some afterElse =>
    refine left_last ?_
    exact fun _ _ _ => rfl

theorem elseLeft_of_ne (h : s.token ≠ .keyword .elseKw) : elseLeft s = .ok s := by
  rw [elseLeft, got_of_token_ne (w := .keyword .elseKw) h]

theorem elseLeft_else (p : Pos) (t : TokenStream) :
    elseLeft (.cons ⟨.keyword .elseKw, p⟩ t) = (block t).left := by
  rw [elseLeft, got_cons]

theorem left_stmt_for (p : Pos) (t : TokenStream) :
    (stmt (.cons ⟨.keyword .forKw, p⟩ t)).left =
      (want (.symbol .lparen) t).left >>= fun t₁ => (want (.keyword .varKw) t₁).left >>= fun t₂ =>
        (ident t₂).left >>= fun t₃ => (want (.keyword .ofKw) t₃).left >>= fun t₄ =>
          (expr t₄).left >>= fun t₅ => (want (.symbol .rparen) t₅).left >>= fun t₆ =>
            (block t₆).left := by
  rw [stmt]
  refine left_bind fun _ t₁ _ => left_bind fun _ t₂ _ => left_bind fun _ t₃ _ =>
    left_bind fun _ t₄ _ => left_bind fun _ t₅ _ => left_bind fun _ t₆ _ => left_last ?_
  exact fun _ _ _ => rfl

end Parser

end PairDict
