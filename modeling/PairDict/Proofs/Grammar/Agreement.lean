import PairDict.Proofs.Grammar.Driven
import PairDict.Proofs.Grammar.Reading

/-! # A driven reader reads the same

A driven reader stops as soon as its cursor comes to a failure, and what is read off a stream
may leave a failure at the front of what is left (`Driver.Fails`).  But then nothing else can
come of it: whatever is read next fails there, or leaves the failure in its turn.  In between
the two do the same, and the driven reader never asks its cursor in vain (`Driver.Agrees`).

So a driven reader makes of a stream what `TokenStream.program` makes of it
(`Driver.program_agrees`).  Each lexeme costs it one move, and before the first one it moves
onto the stream.
-/
namespace PairDict

open PairDict.Parser (Step)

namespace Driver

variable {β γ : Type} {n n' m m' k total : Nat} {e : ScanError}

theorem bind_of_ok {d : Driver β} {f : β → Driver γ} {b : β} {k' : Nat} (h : d k = .ok b k') :
    (d >>= f) k = f b k' := by
  show EStateM.bind d f k = f b k'
  rw [EStateM.bind, h]

theorem bind_of_error {d : Driver β} {f : β → Driver γ} {c : Option Stop} {k' : Nat}
    (h : d k = .error c k') : (d >>= f) k = .error c k' := by
  show EStateM.bind d f k = .error c k'
  rw [EStateM.bind, h]

/-! ## Failures -/

/-- The stream has something else at its front than a failure. -/
def Clean (s : TokenStream) : Prop := ∀ e, s ≠ .failed e

theorem clean_or_failed (s : TokenStream) : Clean s ∨ ∃ e, s = .failed e := by
  cases s with
  | failed e => exact .inr ⟨e, rfl⟩
  | _ => exact .inl nofun

/-- Only a failure counts as an erroneous token. -/
theorem Clean.token_ne_error {s : TokenStream} (h : Clean s) : s.token ≠ .error := by
  cases s with
  | eof p => nofun
  | failed e => exact absurd rfl (h e)
  | cons l rest =>
    obtain ⟨w, p⟩ := l
    cases w <;> nofun

theorem pass_of_clean {l : Lexeme} {rest : TokenStream} (h : Clean rest) :
    pass l rest k = .ok ⟨(), rest, Nat.lt_succ_self _⟩ (k + 1) := by
  have hmove : move (.on (.cons l rest)) k = .ok (.on rest) (k + 1) := if_neg h.token_ne_error
  exact bind_of_ok hmove

/-- What was read came to the failure `e`: it stopped there, or it left the failure for the
next who looks. -/
inductive Fails (e : ScanError) : Parser.Result β n → Prop where
  | error : Fails e (.error (.scan e))
  | left {b lt} : Fails e (.ok ⟨b, .failed e, lt⟩)

namespace Fails

variable {r : Parser.Result β n} {g : Step β n → Parser.Result γ m}

/-- Nothing is read after an error. -/
theorem stop (h : r = .error (.scan e)) : Fails e (r >>= g) := by
  rw [h]
  exact .error

theorem bind (h : Fails e r) (hg : ∀ b lt, Fails e (g ⟨b, .failed e, lt⟩)) : Fails e (r >>= g) := by
  cases h with
  | error => exact .error
  | left => exact hg _ _

end Fails

theorem want_failed (w : Word) : Parser.want w (.failed e) = .error (.scan e) := rfl

theorem ident_failed : Parser.ident (.failed e) = .error (.scan e) := rfl

theorem operand_failed : Parser.operand (.failed e) = .error (.scan e) := by
  unfold Parser.operand
  rfl

theorem postfixed_failed : Parser.postfixed (.failed e) = .error (.scan e) := by
  rw [Parser.postfixed, operand_failed]
  rfl

theorem binary_failed (level : Nat) : Parser.binary level (.failed e) = .error (.scan e) := by
  rw [Parser.binary]
  unfold Parser.unary
  dsimp only
  rw [postfixed_failed]
  rfl

theorem stmt_failed : Parser.stmt (.failed e) = .error (.scan e) := by
  unfold Parser.stmt
  rfl

theorem seq_failed : Parser.seq (.failed e) = .error (.scan e) := by
  rw [Parser.seq, stmt_failed]
  rfl

theorem block_failed : Parser.block (.failed e) = .error (.scan e) := by
  rw [Parser.block, want_failed]
  rfl

theorem parenthesized_failed : Parser.parenthesized (.failed e) = .error (.scan e) := rfl

/-- The loops leave a failure where it is. -/
theorem binaryTail_fails (level : Nat) (x : Expr Pos) :
    Fails e (Parser.binaryTail level x (.failed e)) := by
  unfold Parser.binaryTail
  exact .left

theorem brackets_fails (x : Expr Pos) : Fails e (Parser.brackets x (.failed e)) := by
  unfold Parser.brackets
  exact .left

/-! ## Agreement -/

/-- What a driven reader comes to, next to what is read off the stream.  If the stream is
left with a failure at its front, the driven reader has moved onto the failure and stopped.
The moves are `total` less the lexemes that are left. -/
inductive Agrees (total : Nat) :
    EStateM.Result (Option Stop) Nat (Taken β n) → Parser.Result β n' → Prop where
  | ok {b rest lt lt' moves} : Clean rest → moves + rest.length = total →
      Agrees total (.ok ⟨b, rest, lt⟩ moves) (.ok ⟨b, rest, lt'⟩)
  | stopped {b e lt' moves} : moves ≤ total →
      Agrees total (.error (some (.scan e)) moves) (.ok ⟨b, .failed e, lt'⟩)
  | error {e moves} : moves ≤ total →
      Agrees total (.error (some (.ofSyntax e)) moves) (.error e)

namespace Agrees

variable {d : Reads β n} {r : Parser.Result β n'} {f : Taken β n → Reads γ m}
  {g : Step β n' → Parser.Result γ m'}

theorem of_fails {r : Parser.Result β n'} (h : Fails e r) (hk : k ≤ total) :
    Agrees total (.error (some (.scan e)) k : EStateM.Result _ _ (Taken β n)) r := by
  cases h with
  | error => exact .error (e := .scan e) hk
  | left => exact .stopped hk

/-- One reader after another. -/
theorem bind (h : Agrees total (d k) r)
    (hok : ∀ b rest lt lt' k', Clean rest → k' + rest.length = total →
      Agrees total (f ⟨b, rest, lt⟩ k') (g ⟨b, rest, lt'⟩))
    (hfail : ∀ b e lt, Fails e (g ⟨b, .failed e, lt⟩)) :
    Agrees total ((d >>= f) k) (r >>= g) := by
  generalize hd : d k = x at h
  cases h with
  | ok hclean hk =>
    rw [bind_of_ok hd]
    exact hok _ _ _ _ _ hclean hk
  | stopped hk =>
    rw [bind_of_error hd]
    exact of_fails (hfail _ _ _) hk
  | error hk =>
    rw [bind_of_error hd]
    exact .error hk

/-- A reader after which nothing is read. -/
theorem last {c : β → γ} (h : Agrees total (d k) r)
    (hf : ∀ b rest lt, ∃ lt₁, f ⟨b, rest, lt⟩ = pure ⟨c b, rest, lt₁⟩ := by
      exact fun _ _ _ => ⟨_, rfl⟩)
    (hg : ∀ b rest lt, ∃ lt₁, g ⟨b, rest, lt⟩ = .ok ⟨c b, rest, lt₁⟩ := by
      exact fun _ _ _ => ⟨_, rfl⟩) :
    Agrees total ((d >>= f) k) (r >>= g) := by
  refine h.bind ?_ ?_
  · intro b rest lt lt' k' hclean hk
    obtain ⟨lt₁, hf⟩ := hf b rest lt
    obtain ⟨lt₂, hg⟩ := hg b rest lt'
    rw [hf, hg]
    exact .ok hclean hk
  · intro b e lt
    obtain ⟨lt₁, hg⟩ := hg b (.failed e) lt
    rw [hg]
    exact .left

/-- A move from a lexeme onto what follows it. -/
theorem pass {l : Lexeme} {rest : TokenStream} {f : Taken Unit (rest.length + 1) → Reads γ m}
    {r : Parser.Result γ m'} (hk : k + (rest.length + 1) = total)
    (hok : Clean rest → k + 1 + rest.length = total →
      Agrees total (f ⟨(), rest, Nat.lt_succ_self _⟩ (k + 1)) r)
    (hfail : ∀ e, rest = .failed e → Fails e r) :
    Agrees total ((pass l rest >>= f) k) r := by
  rcases clean_or_failed rest with hclean | ⟨e, rfl⟩
  · rw [bind_of_ok (pass_of_clean hclean)]
    exact hok hclean (by omega)
  · exact of_fails (hfail e rfl) (by omega)

/-- A move after which nothing is read. -/
theorem pass_last {l : Lexeme} {rest : TokenStream} {b : β}
    {f : Taken Unit (rest.length + 1) → Reads β n} {le : rest.length + 1 ≤ n} {lt : rest.length < n'}
    (hk : k + (rest.length + 1) = total)
    (hf : f ⟨(), rest, Nat.lt_succ_self _⟩ = Pure.pure ⟨b, rest, le⟩) :
    Agrees total ((Driver.pass l rest >>= f) k) (.ok ⟨b, rest, lt⟩ : Parser.Result β n') := by
  refine .pass hk (fun hclean hk' => ?_) ?_
  · rw [hf]
    exact .ok hclean hk'
  · rintro e rfl
    exact .left

end Agrees

/-! ## Single words -/

variable {s rest : TokenStream}

/-- A reader that refuses a token agrees with one that rejects it. -/
theorem refuse_agrees (expected : Option Token) (hs : Clean s) (hk : k ≤ total) :
    Agrees total ((refuse expected s : Reads β n) k)
      (.error (Parser.reject expected s) : Parser.Result β m) := by
  cases s with
  | failed e => exact absurd rfl (hs e)
  | eof p => exact .error (e := .parse ⟨p, expected, none⟩) hk
  | cons l rest => exact .error (e := .parse ⟨l.pos, expected, some l.word⟩) hk

/-- The words of which there is one for each kind. -/
def IsFixed (w : Word) : Prop := ∀ v : Word, v.token = w.token ↔ v = w

theorem isFixed_symbol (y : Symbol) : IsFixed (.symbol y) := by
  intro v
  cases v <;> simp [Word.token]

theorem isFixed_keyword (x : Keyword) : IsFixed (.keyword x) := by
  intro v
  cases v <;> simp [Word.token]

theorem want_agrees {w : Word} (hw : IsFixed w) (hs : Clean s) (hk : k + s.length = total) :
    Agrees total (want w.token s k) (Parser.want w s) := by
  cases s with
  | failed e => exact absurd rfl (hs e)
  | eof p => exact refuse_agrees (some w.token) hs (by omega)
  | cons l rest =>
    unfold want Parser.want
    dsimp only
    by_cases hl : l.word = w
    · rw [if_pos hl, if_pos ((hw _).2 hl)]
      exact .pass_last hk rfl
    · rw [if_neg hl, if_neg fun h => hl ((hw _).1 h)]
      exact refuse_agrees (some w.token) hs (by omega)

theorem want_symbol_agrees (y : Symbol) (hs : Clean s) (hk : k + s.length = total) :
    Agrees total (want (.symbol y) s k) (Parser.want (.symbol y) s) :=
  want_agrees (isFixed_symbol y) hs hk

theorem want_keyword_agrees (x : Keyword) (hs : Clean s) (hk : k + s.length = total) :
    Agrees total (want (.keyword x) s k) (Parser.want (.keyword x) s) :=
  want_agrees (isFixed_keyword x) hs hk

theorem ident_agrees (hs : Clean s) (hk : k + s.length = total) :
    Agrees total (ident s k) (Parser.ident s) := by
  cases s with
  | failed e => exact absurd rfl (hs e)
  | eof p => exact refuse_agrees (some .name) hs (by omega)
  | cons l rest =>
    obtain ⟨w, p⟩ := l
    cases w with
    | name x => exact .pass_last hk rfl
    | _ => exact refuse_agrees (some .name) hs (by omega)

theorem got_bind_of_ne {t : Token} {f : Option { r : TokenStream // r.length + 1 ≤ s.length } → Reads β n}
    (h : s.token ≠ t) : (got t s >>= f) k = f none k := by
  cases s with
  | eof p => rfl
  | failed e => rfl
  | cons l rest =>
    have hgot : got t (.cons l rest) = Pure.pure none := if_neg h
    rw [hgot]
    rfl

/-- Passing over a word that may be missing. -/
theorem Agrees.got_cons {l : Lexeme} {t : Token}
    {f : Option { r : TokenStream // r.length + 1 ≤ (TokenStream.cons l rest).length } → Reads β n}
    {r : Parser.Result β n'} (hl : l.word.token = t) (hk : k + (rest.length + 1) = total)
    (hok : Clean rest → k + 1 + rest.length = total →
      Agrees total (f (some ⟨rest, Nat.lt_succ_self _⟩) (k + 1)) r)
    (hfail : ∀ e, rest = .failed e → Fails e r) :
    Agrees total ((got t (.cons l rest) >>= f) k) r := by
  have hgot : Driver.got t (.cons l rest) =
      Driver.pass l rest >>= fun step => Pure.pure (some ⟨step.rest, step.le⟩) := if_pos hl
  rw [hgot, bind_assoc]
  exact .pass hk hok hfail

/-! ## Expressions -/

/-- Where there is no bracket, the loop over brackets is over. -/
theorem brackets_stop (x : Expr Pos) (hs : Clean s) (hk : k + s.length = total)
    (h : s.token ≠ .symbol .lbrack) : Agrees total (brackets x s k) (Parser.brackets x s) := by
  obtain ⟨lt, hgives⟩ := (Parser.brackets_of_ne (x := x) h).2 ⟨rfl, rfl⟩
  have hdriven : brackets x s k = .ok ⟨x, s, lt⟩ k := by
    cases s with
    | failed e => exact absurd rfl (hs e)
    | eof p =>
      unfold brackets
      rfl
    | cons l rest =>
      rw [brackets, if_neg (show ¬ l.word.token = .symbol .lbrack from h)]
      rfl
  rw [hgives, hdriven]
  exact .ok hs hk

mutual

theorem binary_agrees (level : Nat) (s : TokenStream) {k total : Nat} (hs : Clean s)
    (hk : k + s.length = total) : Agrees total (binary level s k) (Parser.binary level s) := by
  rw [binary, Parser.binary]
  refine (unary_agrees s hs hk).bind (fun x rest lt lt' k' hrest hk' => ?_) fun x e lt => ?_
  · exact (binaryTail_agrees level x rest hrest hk').last
  · exact (binaryTail_fails level x).bind fun _ _ => .left
termination_by (s.length, 3)

theorem binaryTail_agrees (level : Nat) (x : Expr Pos) (s : TokenStream) {k total : Nat}
    (hs : Clean s) (hk : k + s.length = total) :
    Agrees total (binaryTail level x s k) (Parser.binaryTail level x s) := by
  cases s with
  | failed e => exact absurd rfl (hs e)
  | eof p =>
    unfold binaryTail Parser.binaryTail
    exact .ok hs hk
  | cons l rest =>
    rw [binaryTail, Parser.binaryTail]
    by_cases hl : level < l.word.token.precedence
    · rw [if_pos hl, if_pos hl]
      refine .pass hk (fun hrest hk₁ => ?_) ?_
      · refine (binary_agrees l.word.token.precedence rest hrest hk₁).bind
          (fun y rest₂ lt lt' k₂ hrest₂ hk₂ => ?_) fun y e lt => ?_
        · exact (binaryTail_agrees level (Parser.combine l.word.token x y) rest₂ hrest₂ hk₂).last
        · exact (binaryTail_fails level _).bind fun _ _ => .left
      · rintro e rfl
        exact .stop (binary_failed _)
    · rw [if_neg hl, if_neg hl]
      exact .ok hs hk
termination_by (s.length, 0)

theorem unary_agrees {k total : Nat} : ∀ s : TokenStream, Clean s → k + s.length = total →
    Agrees total (unary s k) (Parser.unary s)
  | .failed e, hs, _ => absurd rfl (hs e)
  | .eof p, hs, hk => by
    unfold unary Parser.unary
    exact postfixed_agrees (.eof p) hs hk
  | .cons l rest, hs, hk => by
    rw [unary, Parser.unary]
    by_cases hl : Parser.isUnary l.word = true
    · rw [if_pos hl, if_pos hl]
      refine .pass hk (fun hrest hk₁ => ?_) ?_
      · exact (postfixed_agrees rest hrest hk₁).last
      · rintro e rfl
        exact .stop postfixed_failed
    · rw [if_neg hl, if_neg hl]
      exact postfixed_agrees (.cons l rest) hs hk
termination_by s => (s.length, 2)

theorem postfixed_agrees (s : TokenStream) {k total : Nat} (hs : Clean s)
    (hk : k + s.length = total) : Agrees total (postfixed s k) (Parser.postfixed s) := by
  rw [postfixed, Parser.postfixed]
  refine (operand_agrees s hs hk).bind (fun x rest lt lt' k' hrest hk' => ?_) fun x e lt => ?_
  · exact (brackets_agrees x rest hrest hk').last
  · exact (brackets_fails x).bind fun _ _ => .left
termination_by (s.length, 1)

theorem brackets_agrees (x : Expr Pos) (s : TokenStream) {k total : Nat} (hs : Clean s)
    (hk : k + s.length = total) : Agrees total (brackets x s k) (Parser.brackets x s) := by
  by_cases hbrack : s.token = .symbol .lbrack
  · obtain ⟨p, rest, hst⟩ := TokenStream.token_eq_symbol_iff.1 hbrack
    have hlen : s.length = rest.length + 1 := by rw [hst]; rfl
    rw [hst, brackets, Parser.brackets]
    refine .pass (hlen ▸ hk) (fun hrest hk₁ => ?_) ?_
    · refine (binary_agrees 0 rest hrest hk₁).bind (fun key t lt lt' k₂ ht hk₂ => ?_)
        fun key e lt => .stop (want_failed _)
      dsimp only
      by_cases hcolon : t.token = .symbol .colon
      · obtain ⟨q, t₁, rfl⟩ := TokenStream.token_eq_symbol_iff.1 hcolon
        have hlt₁ : t₁.length + 1 < rest.length := lt'
        rw [Parser.got_cons]
        refine .got_cons rfl hk₂ (fun ht₁ hk₃ => ?_) ?_
        · dsimp only
          by_cases hbrack₁ : t₁.token = .symbol .rbrack
          · obtain ⟨q', t₂, rfl⟩ := TokenStream.token_eq_symbol_iff.1 hbrack₁
            have hlt₂ : t₂.length + 1 + 1 < rest.length := hlt₁
            rw [Parser.got_cons]
            refine .got_cons rfl hk₃ (fun ht₂ hk₄ => ?_) ?_
            · exact (brackets_agrees _ t₂ ht₂ hk₄).last
            · rintro e rfl
              exact (brackets_fails _).bind fun _ _ => .left
          · rw [got_bind_of_ne hbrack₁, Parser.got_of_token_ne (w := .symbol .rbrack) hbrack₁]
            refine (binary_agrees 0 t₁ ht₁ hk₃).bind (fun value t₂ lt₂ lt₂' k₄ ht₂ hk₄ => ?_)
              fun value e lt => .stop (want_failed _)
            refine (want_symbol_agrees .rbrack ht₂ hk₄).bind
              (fun _ t₃ lt₃ lt₃' k₅ ht₃ hk₅ => ?_) fun _ e lt => ?_
            · exact (brackets_agrees _ t₃ ht₃ hk₅).last
            · exact (brackets_fails _).bind fun _ _ => .left
        · rintro e rfl
          exact .stop (binary_failed 0)
      · rw [got_bind_of_ne hcolon, Parser.got_of_token_ne (w := .symbol .colon) hcolon]
        refine (want_symbol_agrees .rbrack ht hk₂).bind (fun _ t₁ lt₁ lt₁' k₃ ht₁ hk₃ => ?_)
          fun _ e lt => ?_
        · exact (brackets_agrees _ t₁ ht₁ hk₃).last
        · exact (brackets_fails _).bind fun _ _ => .left
    · rintro e rfl
      exact .stop (binary_failed 0)
  · exact brackets_stop x hs hk hbrack
termination_by (s.length, 0)

theorem operand_agrees (s : TokenStream) {k total : Nat} (hs : Clean s) (hk : k + s.length = total) :
    Agrees total (operand s k) (Parser.operand s) := by
  cases s with
  | failed e => exact absurd rfl (hs e)
  | eof p =>
    unfold operand Parser.operand
    exact refuse_agrees none hs (by omega)
  | cons l rest =>
    obtain ⟨w, p⟩ := l
    cases w with
    | keyword y =>
      unfold operand Parser.operand
      exact refuse_agrees none hs (by omega)
    | bool b =>
      unfold operand Parser.operand
      exact .pass_last hk rfl
    | num i =>
      unfold operand Parser.operand
      exact .pass_last hk rfl
    | name x =>
      unfold operand Parser.operand
      exact .pass_last hk rfl
    | symbol y =>
      cases y with
      | lbrack =>
        unfold operand Parser.operand
        refine .pass hk (fun hrest hk₁ => ?_) ?_
        · refine (binary_agrees 0 rest hrest hk₁).bind (fun _ t₂ lt₂ lt₂' k₂ ht₂ hk₂ => ?_)
            fun _ e lt => .stop (want_failed _)
          refine (want_symbol_agrees .colon ht₂ hk₂).bind (fun _ t₃ lt₃ lt₃' k₃ ht₃ hk₃ => ?_)
            fun _ e lt => .stop (binary_failed 0)
          refine (binary_agrees 0 t₃ ht₃ hk₃).bind (fun _ t₄ lt₄ lt₄' k₄ ht₄ hk₄ => ?_)
            fun _ e lt => .stop (want_failed _)
          exact (want_symbol_agrees .rbrack ht₄ hk₄).last
        · rintro e rfl
          exact .stop (binary_failed 0)
      | lparen =>
        unfold operand Parser.operand
        refine .pass hk (fun hrest hk₁ => ?_) ?_
        · refine (binary_agrees 0 rest hrest hk₁).bind (fun _ t₂ lt₂ lt₂' k₂ ht₂ hk₂ => ?_)
            fun _ e lt => .stop (want_failed _)
          exact (want_symbol_agrees .rparen ht₂ hk₂).last
        · rintro e rfl
          exact .stop (binary_failed 0)
      | _ =>
        unfold operand Parser.operand
        exact refuse_agrees none hs (by omega)
termination_by (s.length, 0)

end

theorem expr_agrees (hs : Clean s) (hk : k + s.length = total) :
    Agrees total (expr s k) (Parser.expr s) :=
  binary_agrees 0 s hs hk

theorem parenthesized_agrees (hs : Clean s) (hk : k + s.length = total) :
    Agrees total (parenthesized s k) (Parser.parenthesized s) := by
  refine (want_symbol_agrees .lparen hs hk).bind (fun _ t₁ lt₁ lt₁' k₁ ht₁ hk₁ => ?_)
    fun _ e lt => .stop (binary_failed 0)
  refine (expr_agrees ht₁ hk₁).bind (fun _ t₂ lt₂ lt₂' k₂ ht₂ hk₂ => ?_)
    fun _ e lt => .stop (want_failed _)
  exact (want_symbol_agrees .rparen ht₂ hk₂).last

/-! ## Statements -/

/-- A clean stream ends a sequence by its token. -/
theorem endsSeq_token (hs : Clean s) : endsSeq s.token = Parser.endsSeq s := by
  cases s with
  | failed e => exact absurd rfl (hs e)
  | eof p => rfl
  | cons l rest =>
    obtain ⟨w, p⟩ := l
    cases w with
    | symbol y => cases y <;> rfl
    | _ => rfl

section Statements

variable {p : Pos} (hk : k + (rest.length + 1) = total)

include hk

theorem stmt_var_agrees : Agrees total (stmt (.cons ⟨.keyword .varKw, p⟩ rest) k)
    (Parser.stmt (.cons ⟨.keyword .varKw, p⟩ rest)) := by
  unfold stmt Parser.stmt
  refine .pass hk (fun hrest hk₁ => ?_) ?_
  · refine (ident_agrees hrest hk₁).bind (fun _ t₂ lt₂ lt₂' k₂ ht₂ hk₂ => ?_)
      fun _ e lt => .stop (want_failed _)
    refine (want_symbol_agrees .assign ht₂ hk₂).bind (fun _ t₃ lt₃ lt₃' k₃ ht₃ hk₃ => ?_)
      fun _ e lt => .stop (binary_failed 0)
    exact (expr_agrees ht₃ hk₃).last
  · rintro e rfl
    exact .stop ident_failed

theorem stmt_name_agrees (x : String) : Agrees total (stmt (.cons ⟨.name x, p⟩ rest) k)
    (Parser.stmt (.cons ⟨.name x, p⟩ rest)) := by
  unfold stmt Parser.stmt
  refine .pass hk (fun hrest hk₁ => ?_) ?_
  · refine (want_symbol_agrees .assign hrest hk₁).bind (fun _ t₂ lt₂ lt₂' k₂ ht₂ hk₂ => ?_)
      fun _ e lt => .stop (binary_failed 0)
    exact (expr_agrees ht₂ hk₂).last
  · rintro e rfl
    exact .stop (want_failed _)

theorem stmt_print_agrees : Agrees total (stmt (.cons ⟨.keyword .printKw, p⟩ rest) k)
    (Parser.stmt (.cons ⟨.keyword .printKw, p⟩ rest)) := by
  unfold stmt Parser.stmt
  refine .pass hk (fun hrest hk₁ => ?_) ?_
  · exact (expr_agrees hrest hk₁).last
  · rintro e rfl
    exact .stop (binary_failed 0)

variable (hblock : ∀ (t : TokenStream) (k : Nat), t.length < rest.length → Clean t →
  k + t.length = total → Agrees total (block t k) (Parser.block t))

include hblock

theorem stmt_if_agrees : Agrees total (stmt (.cons ⟨.keyword .ifKw, p⟩ rest) k)
    (Parser.stmt (.cons ⟨.keyword .ifKw, p⟩ rest)) := by
  unfold stmt Parser.stmt
  refine .pass hk (fun hrest hk₁ => ?_) ?_
  · refine (parenthesized_agrees hrest hk₁).bind (fun _ t₂ lt₂ lt₂' k₂ ht₂ hk₂ => ?_)
      fun _ e lt => .stop block_failed
    refine (hblock t₂ k₂ lt₂ ht₂ hk₂).bind (fun _ t₃ lt₃ lt₃' k₃ ht₃ hk₃ => ?_) fun _ e lt => .left
    dsimp only
    by_cases helse : t₃.token = .keyword .elseKw
    · obtain ⟨q, t₄, rfl⟩ := TokenStream.token_eq_keyword_iff.1 helse
      have hlt₄ : t₄.length + 1 < t₂.length := lt₃
      rw [Parser.got_cons]
      refine .got_cons rfl hk₃ (fun ht₄ hk₄ => ?_) ?_
      · exact (hblock t₄ _ (by omega) ht₄ hk₄).last
      · rintro e rfl
        exact .stop block_failed
    · rw [got_bind_of_ne helse, Parser.got_of_token_ne (w := .keyword .elseKw) helse]
      exact .ok ht₃ hk₃
  · rintro e rfl
    exact .stop parenthesized_failed

theorem stmt_for_agrees : Agrees total (stmt (.cons ⟨.keyword .forKw, p⟩ rest) k)
    (Parser.stmt (.cons ⟨.keyword .forKw, p⟩ rest)) := by
  unfold stmt Parser.stmt
  refine .pass hk (fun hrest hk₁ => ?_) ?_
  · refine (want_symbol_agrees .lparen hrest hk₁).bind (fun _ t₂ lt₂ lt₂' k₂ ht₂ hk₂ => ?_)
      fun _ e lt => .stop (want_failed _)
    refine (want_keyword_agrees .varKw ht₂ hk₂).bind (fun _ t₃ lt₃ lt₃' k₃ ht₃ hk₃ => ?_)
      fun _ e lt => .stop ident_failed
    refine (ident_agrees ht₃ hk₃).bind (fun _ t₄ lt₄ lt₄' k₄ ht₄ hk₄ => ?_)
      fun _ e lt => .stop (want_failed _)
    refine (want_keyword_agrees .ofKw ht₄ hk₄).bind (fun _ t₅ lt₅ lt₅' k₅ ht₅ hk₅ => ?_)
      fun _ e lt => .stop (binary_failed 0)
    refine (expr_agrees ht₅ hk₅).bind (fun _ t₆ lt₆ lt₆' k₆ ht₆ hk₆ => ?_)
      fun _ e lt => .stop (want_failed _)
    refine (want_symbol_agrees .rparen ht₆ hk₆).bind (fun _ t₇ lt₇ lt₇' k₇ ht₇ hk₇ => ?_)
      fun _ e lt => .stop block_failed
    have hlt : t₇.length < rest.length := by omega
    exact (hblock t₇ k₇ hlt ht₇ hk₇).last
  · rintro e rfl
    exact .stop (want_failed _)

end Statements

mutual

theorem seq_agrees (s : TokenStream) {k total : Nat} (hs : Clean s) (hk : k + s.length = total) :
    Agrees total (seq s k) (Parser.seq s) := by
  rw [seq, Parser.seq]
  refine (stmt_agrees s hs hk).bind (fun first t lt lt' k₁ ht hk₁ => ?_) fun _ e lt => .left
  dsimp only
  by_cases hsemi : t.token = .symbol .semi
  · obtain ⟨q, t₁, rfl⟩ := TokenStream.token_eq_symbol_iff.1 hsemi
    have hlt₁ : t₁.length + 1 < s.length := lt'
    rw [Parser.got_cons]
    refine .got_cons rfl hk₁ (fun ht₁ hk₂ => ?_) ?_
    · dsimp only
      rw [endsSeq_token ht₁]
      split
      · exact .ok ht₁ hk₂
      · exact (seq_agrees t₁ ht₁ hk₂).last
    · rintro e rfl
      exact .stop seq_failed
  · rw [got_bind_of_ne hsemi, Parser.got_of_token_ne (w := .symbol .semi) hsemi]
    exact .ok ht hk₁
termination_by (s.length, 1)

theorem stmt_agrees {k total : Nat} : ∀ s : TokenStream, Clean s → k + s.length = total →
    Agrees total (stmt s k) (Parser.stmt s)
  | .failed e, hs, _ => absurd rfl (hs e)
  | .eof p, hs, hk => by
    unfold stmt Parser.stmt
    exact refuse_agrees none hs (by omega)
  | .cons ⟨.symbol _, p⟩ rest, hs, hk | .cons ⟨.bool _, p⟩ rest, hs, hk
  | .cons ⟨.num _, p⟩ rest, hs, hk => by
    unfold stmt Parser.stmt
    exact refuse_agrees none hs (by omega)
  | .cons ⟨.name x, p⟩ rest, _, hk => stmt_name_agrees hk x
  | .cons ⟨.keyword y, p⟩ rest, hs, hk => by
    cases y with
    | varKw => exact stmt_var_agrees hk
    | printKw => exact stmt_print_agrees hk
    | ifKw => exact stmt_if_agrees hk fun t _ hlt ht hk' => block_agrees t ht hk'
    | forKw => exact stmt_for_agrees hk fun t _ hlt ht hk' => block_agrees t ht hk'
    | _ =>
      unfold stmt Parser.stmt
      exact refuse_agrees none hs (by omega)
termination_by s => (s.length, 0)

theorem block_agrees (s : TokenStream) {k total : Nat} (hs : Clean s) (hk : k + s.length = total) :
    Agrees total (block s k) (Parser.block s) := by
  rw [block, Parser.block]
  refine (want_symbol_agrees .lbrace hs hk).bind (fun _ t₁ lt₁ lt₁' k₁ ht₁ hk₁ => ?_)
    fun _ e lt => .stop seq_failed
  refine (seq_agrees t₁ ht₁ hk₁).bind (fun _ t₂ lt₂ lt₂' k₂ ht₂ hk₂ => ?_)
    fun _ e lt => .stop (want_failed _)
  exact (want_symbol_agrees .rbrace ht₂ hk₂).last
termination_by (s.length, 0)

end

/-! ## Programs -/

/-- **A driven reader reads what is read off the stream**, or stops with the same error.  It
has moved once for each lexeme and once for the end, or not as often. -/
theorem program_agrees (s : TokenStream) :
    (∃ p, s.program = .ok p ∧ program s 0 = .ok p (s.length + 1)) ∨
      ∃ e moves, s.program = .error e ∧ program s 0 = .error (some (.ofSyntax e)) moves ∧
        moves ≤ s.length + 1 := by
  rcases clean_or_failed s with hs | ⟨e, rfl⟩
  · have hmove : move (.before s) 0 = .ok (.on s) 1 := if_neg hs.token_ne_error
    have hseq : Agrees (s.length + 1) (seq s 1) (Parser.seq s) :=
      seq_agrees s hs (Nat.add_comm 1 s.length)
    rw [program, bind_of_ok hmove, TokenStream.program]
    generalize hdriven : seq s 1 = x at hseq
    generalize Parser.seq s = y at hseq
    cases hseq with
    | @ok body rest lt lt' moves hclean hmoves =>
      rw [bind_of_ok hdriven]
      cases rest with
      | failed e => exact absurd rfl (hclean e)
      | eof p =>
        obtain rfl : moves = s.length + 1 := hmoves
        exact .inl ⟨_, rfl, rfl⟩
      | cons l rest =>
        have hle : moves ≤ s.length + 1 := by omega
        exact .inr ⟨.parse ⟨l.pos, some .eof, some l.word⟩, moves, rfl, rfl, hle⟩
    | stopped hmoves =>
      rw [bind_of_error hdriven]
      exact .inr ⟨_, _, rfl, rfl, hmoves⟩
    | error hmoves =>
      rw [bind_of_error hdriven]
      exact .inr ⟨_, _, rfl, rfl, hmoves⟩
  · refine .inr ⟨.scan e, 1, ?_, rfl, Nat.le_refl 1⟩
    rw [TokenStream.program, seq_failed]
    rfl

end Driver

end PairDict
