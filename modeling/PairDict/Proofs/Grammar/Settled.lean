import PairDict.Proofs.Grammar.Lookahead
import PairDict.Proofs.Grammar.Recognized

/-! # Every reader is settled by the words that it has read

Each reader of the grammar is `Settled` for the phrases that it reads.  The recursion is
that of the readers, and there is nothing more to each of them than the equation that says
how it is built (`Result.left`) and the rule of the grammar that puts its phrases together.

The loop over operators of all levels reads what continues an expression on some level `k`
(`Continues`).  As when derivations are found, the invariant is that the operator which
comes next, if one does, stands on `k` or is looser.
-/
namespace PairDict

namespace Grammar

open PairDict.Parser PairDict.Parser.Result

variable {s t : TokenStream} {L L' : List Word → Prop}

/-! ## Phrases that can be had anywhere -/

theorem Viable.mono {ws : List Word} (h : Viable L ws) (hL : ∀ xs, L xs → L' xs) : Viable L' ws :=
  h.map [] fun xs hxs => .of_phrase (hL xs hxs)

theorem Viable.then (h : Viable L []) (h' : Viable L' []) : Viable (Then L L') [] := by
  obtain ⟨us, hus, hL⟩ := h
  obtain ⟨vs, hvs, hL'⟩ := h'
  exact ⟨us ++ vs, fun w hw => (List.mem_append.1 hw).elim (hus w) (hvs w), us, vs, hL, hL', rfl⟩

theorem viable_symbol (y : Symbol) : Viable (· = [.symbol y]) [] :=
  ⟨[.symbol y], List.forall_mem_singleton.2 trivial, rfl⟩

theorem viable_keyword (k : Keyword) : Viable (· = [.keyword k]) [] :=
  ⟨[.keyword k], List.forall_mem_singleton.2 trivial, rfl⟩

theorem spellable_x : (Word.name "x").Spellable := .name (by decide) nofun (by decide +kernel)

theorem viable_name : Viable (Derives fun x => [Word.name x]) [] :=
  ⟨[.name "x"], List.forall_mem_singleton.2 spellable_x, "x", rfl⟩

/-- The number that stands for any operand. -/
theorem viable_atom : Viable (Derives Atom.words) [] :=
  ⟨[.num 0], List.forall_mem_singleton.2 (show 0 ≤ Int64.toInt 0 by decide), .num 0, rfl⟩

theorem viable_expression {level : Nat} (h : level ≤ 5) :
    Viable (Derives (@Level.words level)) [] := by
  refine viable_atom.mono fun xs hxs => ?_
  obtain ⟨a, rfl⟩ := hxs
  obtain ⟨e, hwords, -⟩ := (Level.prefixed (.bare (.mk a .nil))).loosen h
  exact ⟨e, hwords.trans (List.append_nil _)⟩

theorem viable_suffixes : Viable (Derives Suffixes.words) [] := ⟨[], nofun, .nil, rfl⟩

theorem viable_slot : Viable (Derives fun d : Slot => d.words ++ [.symbol .rbrack]) [] :=
  (viable_symbol .rbrack).mono fun _ hxs => ⟨.get, hxs.symm⟩

theorem viable_statement : Viable (Derives Statement.words) [] := by
  refine ((viable_keyword .printKw).then (viable_expression (Nat.zero_le 5))).mono fun xs hxs => ?_
  obtain ⟨_, _, rfl, ⟨e, rfl⟩, rfl⟩ := hxs
  exact ⟨.print e, rfl⟩

theorem viable_sequence : Viable (Derives Sequence.words) [] := by
  refine viable_statement.mono fun xs hxs => ?_
  obtain ⟨c, rfl⟩ := hxs
  exact ⟨.last c, rfl⟩

theorem viable_braces : Viable (Derives Braces.words) [] := by
  refine ((viable_symbol .lbrace).then (viable_sequence.then (viable_symbol .rbrace))).mono
    fun xs hxs => ?_
  obtain ⟨_, _, rfl, ⟨_, _, ⟨d, rfl⟩, rfl, rfl⟩, rfl⟩ := hxs
  exact ⟨.mk d, rfl⟩

/-! ## Single words -/

theorem want_settled {w : Word} (hw : w.Spellable) (hone : ∀ w' : Word, w'.token = w.token → w' = w)
    (s : TokenStream) : Settled (· = [w]) (fun s => (want w s).left) s := by
  by_cases h : ∃ p t, s = .cons ⟨w, p⟩ t
  · obtain ⟨p, t, rfl⟩ := h
    have hstop : Settled (· = []) Except.ok t := .stop rfl fun _ _ => rfl
    refine (hstop.front fun p t => left_want_cons w p t).mono ?_
    rintro _ ⟨_, _, rfl, rfl, rfl⟩
    rfl
  · refine .refuse (.expected ⟨w, rfl, hw⟩ fun w' htoken _ => ?_) fun s' hs' => ?_
    · rw [hone w' htoken]
      exact .of_phrase rfl
    · refine left_want_of_ne fun p t hst => h ?_
      subst hst
      cases hs'
      exact ⟨_, _, rfl⟩

theorem want_symbol_settled (y : Symbol) (s : TokenStream) :
    Settled (· = [.symbol y]) (fun s => (want (.symbol y) s).left) s := by
  refine want_settled (w := .symbol y) trivial (fun w' h => ?_) s
  cases w' <;> cases h
  rfl

theorem want_keyword_settled (k : Keyword) (s : TokenStream) :
    Settled (· = [.keyword k]) (fun s => (want (.keyword k) s).left) s := by
  refine want_settled (w := .keyword k) trivial (fun w' h => ?_) s
  cases w' <;> cases h
  rfl

theorem ident_settled (s : TokenStream) :
    Settled (Derives fun x => [Word.name x]) (fun s => (ident s).left) s := by
  by_cases h : s.token = .name
  · match s, h with
    | .cons ⟨.name x, p⟩ t, _ =>
      have hstop : Settled (· = []) Except.ok t := .stop rfl fun _ _ => rfl
      refine (hstop.front fun p t => left_ident_cons x p t).mono ?_
      rintro _ ⟨_, _, rfl, rfl, rfl⟩
      exact ⟨x, rfl⟩
  · refine .refuse (.expected ⟨_, rfl, spellable_x⟩ fun w htoken _ => ?_) fun s' hs' => ?_
    · cases w <;> cases htoken
      exact .of_phrase ⟨_, rfl⟩
    · exact left_ident_of_ne (hs'.token_eq ▸ h)

/-! ## Expressions -/

/-- The words continue every expression on the level `k` to one on the level `level`. -/
def Continues (level k : Nat) (ws : List Word) : Prop :=
  ∀ d : Level k, ∃ e : Level level, e.words = d.words ++ ws

theorem continues_nil {level k : Nat} (h : level ≤ k) : Continues level k [] := fun d => by
  obtain ⟨e, hwords, -⟩ := d.loosen h
  exact ⟨e, by rw [hwords, List.append_nil]⟩

mutual

theorem binary_settled {level : Nat} (hlevel : level ≤ 5) (s : TokenStream) :
    Settled (Derives (@Level.words level)) (fun s => (binary level s).left) s := by
  have hreader : (fun s => (binary level s).left) =
      fun s => (unary s).left >>= operatorsLeft level := funext fun s => left_binary
  rw [hreader]
  refine ((unary_settled s).then (fun t ht => ?_) ⟨[], nofun, continues_nil hlevel⟩).mono ?_
  · have hlt : t.length < s.length := lt_of_left_eq_ok ht
    exact operators_settled hlevel t (Nat.le_succ_of_le (precedence_le _))
  · rintro _ ⟨_, ws, ⟨d, rfl⟩, hmore, rfl⟩
    exact hmore (.prefixed d)
termination_by (s.length, 3)

theorem operators_settled {level k : Nat} (hlevel : level ≤ k) (s : TokenStream)
    (hs : s.token.precedence ≤ k + 1) : Settled (Continues level k) (operatorsLeft level) s := by
  by_cases hle : s.token.precedence ≤ level
  · exact .stop (continues_nil hlevel) fun s' hs' => operatorsLeft_of_le (hs'.token_eq ▸ hle)
  · obtain ⟨n, hn⟩ : ∃ n, s.token.precedence = n + 1 :=
      Nat.exists_eq_add_one_of_ne_zero fun h0 => hle (h0 ▸ Nat.zero_le _)
    have hnk : n ≤ k := by omega
    have hln : level ≤ n := by omega
    obtain ⟨op, p, t, hst, hop⟩ := operator_of_precedence hn
    have hprec : (Token.symbol op).precedence = n + 1 := precedence_of_operator hop
    have hlen : s.length = t.length + 1 := by rw [hst]; rfl
    have hreader : ∀ p t, operatorsLeft level (.cons ⟨.symbol op, p⟩ t) =
        (binary (n + 1) t).left >>= operatorsLeft level := fun p t => by
      have hlt : level < (Token.symbol op).precedence := hprec ▸ Nat.lt_succ_of_le hln
      exact (operatorsLeft_cons hlt).trans (hprec ▸ rfl)
    have hfive : n + 1 ≤ 5 := hprec ▸ precedence_le _
    have htail : Settled (Then (Derives (@Level.words (n + 1))) (Continues level n))
        (fun t => (binary (n + 1) t).left >>= operatorsLeft level) t := by
      refine (binary_settled hfive t).then (fun t' ht' => ?_) ⟨[], nofun, continues_nil hln⟩
      have hlt : t'.length < t.length := lt_of_left_eq_ok ht'
      obtain ⟨y, hy⟩ := left_eq_ok_iff.1 ht'
      obtain ⟨-, -, -, hstop⟩ := binary_derives hfive hy
      exact operators_settled hln t' hstop
    rw [hst]
    refine (htail.front hreader).mono ?_
    rintro _ ⟨_, _, rfl, ⟨_, ws, ⟨right, rfl⟩, hmore, rfl⟩, rfl⟩ d
    obtain ⟨left, hleft, -⟩ := d.loosen hnk
    obtain ⟨e, he⟩ := hmore (.binary hop left right)
    refine ⟨e, ?_⟩
    rw [he, Level.words, hleft, List.append_assoc]
    rfl
termination_by (s.length, 0)

theorem unary_settled (s : TokenStream) :
    Settled (Derives Prefixed.words) (fun s => (unary s).left) s := by
  by_cases hop : ∃ l t, s = .cons l t ∧ isUnary l.word = true
  · obtain ⟨⟨op, p⟩, t, hst, hop⟩ := hop
    have hlen : s.length = t.length + 1 := by rw [hst]; rfl
    rw [hst]
    refine ((postfixed_settled t).front fun p t =>
      left_unary_of_isUnary (l := ⟨op, p⟩) hop).mono ?_
    rintro _ ⟨_, _, rfl, ⟨d, rfl⟩, rfl⟩
    exact ⟨.applied op (mem_prefixes_iff.2 hop) d, rfl⟩
  · have hno : ∀ l t, s = .cons l t → isUnary l.word = false := fun l t hst =>
      Bool.eq_false_iff.2 fun hl => hop ⟨l, t, hst, hl⟩
    refine ((postfixed_settled s).congr fun s' hs' =>
      left_unary_of_not_isUnary (hs'.front_eq_false hno)).mono ?_
    rintro _ ⟨d, rfl⟩
    exact ⟨.bare d, rfl⟩
termination_by (s.length, 2)

theorem postfixed_settled (s : TokenStream) :
    Settled (Derives Postfixed.words) (fun s => (postfixed s).left) s := by
  have hreader : (fun s => (postfixed s).left) = fun s => (operand s).left >>= bracketsLeft :=
    funext fun s => left_postfixed
  rw [hreader]
  refine ((operand_settled s).then (fun t ht => ?_) viable_suffixes).mono ?_
  · have hlt : t.length < s.length := lt_of_left_eq_ok ht
    exact brackets_settled t
  · rintro _ ⟨_, _, ⟨base, rfl⟩, ⟨suffixes, rfl⟩, rfl⟩
    exact ⟨.mk base suffixes, rfl⟩
termination_by (s.length, 1)

theorem brackets_settled (s : TokenStream) : Settled (Derives Suffixes.words) bracketsLeft s := by
  by_cases hs : s.token = .symbol .lbrack
  · obtain ⟨p, t, hst⟩ := TokenStream.token_eq_symbol_iff.1 hs
    have hlen : s.length = t.length + 1 := by rw [hst]; rfl
    rw [hst]
    refine (((binary_settled (Nat.zero_le 5) t).then (fun t₁ ht₁ => ?_)
      (viable_slot.then viable_suffixes)).front bracketsLeft_lbrack).mono ?_
    · have hlt₁ : t₁.length < t.length := lt_of_left_eq_ok ht₁
      refine (slot_settled t₁).then (fun t₂ ht₂ => ?_) viable_suffixes
      have hlt₂ : t₂.length < t₁.length := slotLeft_lt ht₂
      exact brackets_settled t₂
    · rintro _ ⟨_, _, rfl, ⟨_, _, ⟨k, rfl⟩, ⟨_, _, ⟨slot, rfl⟩, ⟨rest, rfl⟩, rfl⟩, rfl⟩, rfl⟩
      refine ⟨.cons k slot rest, ?_⟩
      simp only [Suffixes.words, List.append_assoc, List.singleton_append]
  · exact .stop ⟨.nil, rfl⟩ fun s' hs' => bracketsLeft_of_ne (hs'.token_eq ▸ hs)
termination_by (s.length, 0)

theorem slot_settled (s : TokenStream) :
    Settled (Derives fun d : Slot => d.words ++ [.symbol .rbrack]) slotLeft s := by
  by_cases hs : s.token = .symbol .colon
  · obtain ⟨p, t, hst⟩ := TokenStream.token_eq_symbol_iff.1 hs
    have hlen : s.length = t.length + 1 := by rw [hst]; rfl
    rw [hst]
    refine ((value_settled t).front slotLeft_colon).mono ?_
    rintro _ ⟨_, _, rfl, ⟨slot, h⟩, rfl⟩
    exact ⟨slot, h⟩
  · refine ((want_symbol_settled .rbrack s).congr fun s' hs' =>
      slotLeft_of_ne (hs'.token_eq ▸ hs)).mono ?_
    rintro _ rfl
    exact ⟨.get, rfl⟩
termination_by (s.length, 1)

theorem value_settled (s : TokenStream) :
    Settled (fun ws => ∃ d : Slot, d.words ++ [.symbol .rbrack] = .symbol .colon :: ws)
      valueLeft s := by
  by_cases hs : s.token = .symbol .rbrack
  · obtain ⟨p, t, rfl⟩ := TokenStream.token_eq_symbol_iff.1 hs
    have hstop : Settled (· = []) Except.ok t := .stop rfl fun _ _ => rfl
    refine (hstop.front valueLeft_rbrack).mono ?_
    rintro _ ⟨_, _, rfl, rfl, rfl⟩
    exact ⟨.delete, rfl⟩
  · refine (((binary_settled (Nat.zero_le 5) s).then (fun t _ => want_symbol_settled .rbrack t)
      (viable_symbol .rbrack)).congr fun s' hs' => valueLeft_of_ne (hs'.token_eq ▸ hs)).mono ?_
    rintro _ ⟨_, _, ⟨v, rfl⟩, rfl, rfl⟩
    exact ⟨.update v, rfl⟩
termination_by (s.length, 4)

theorem operand_settled (s : TokenStream) :
    Settled (Derives Atom.words) (fun s => (operand s).left) s := by
  by_cases hs : ∃ l t, s = .cons l t ∧ startsOperand l.word = true
  · obtain ⟨⟨w, p⟩, t, hst, hw⟩ := hs
    have hlen : s.length = t.length + 1 := by rw [hst]; rfl
    have hstop : Settled (· = []) Except.ok t := .stop rfl fun _ _ => rfl
    have hexpr : Viable (Derives (@Level.words 0)) [] := viable_expression (Nat.zero_le 5)
    rw [hst]
    cases w with
    | bool b =>
      refine (hstop.front (left_operand_word (.inl rfl))).mono ?_
      rintro _ ⟨_, _, rfl, rfl, rfl⟩
      exact ⟨.bool b, rfl⟩
    | num n =>
      refine (hstop.front (left_operand_word (.inr (.inl rfl)))).mono ?_
      rintro _ ⟨_, _, rfl, rfl, rfl⟩
      exact ⟨.num n, rfl⟩
    | name x =>
      refine (hstop.front (left_operand_word (.inr (.inr rfl)))).mono ?_
      rintro _ ⟨_, _, rfl, rfl, rfl⟩
      exact ⟨.name x, rfl⟩
    | keyword k => cases k <;> cases hw
    | symbol y =>
      cases y with
      | lbrack =>
        refine (((binary_settled (Nat.zero_le 5) t).then (fun t₁ ht₁ =>
          (want_symbol_settled .colon t₁).then (fun t₂ ht₂ => ?_)
            (hexpr.then (viable_symbol .rbrack)))
          ((viable_symbol .colon).then (hexpr.then (viable_symbol .rbrack)))).front
          left_operand_lbrack).mono ?_
        · have hlt₁ : t₁.length < t.length := lt_of_left_eq_ok ht₁
          have hlt₂ : t₂.length < t₁.length := lt_of_left_eq_ok ht₂
          exact (binary_settled (Nat.zero_le 5) t₂).then
            (fun t₃ _ => want_symbol_settled .rbrack t₃) (viable_symbol .rbrack)
        · rintro _ ⟨_, _, rfl, ⟨_, _, ⟨k, rfl⟩, ⟨_, _, rfl, ⟨_, _, ⟨v, rfl⟩, rfl, rfl⟩, rfl⟩, rfl⟩,
            rfl⟩
          exact ⟨.entry k v, rfl⟩
      | lparen =>
        refine (((binary_settled (Nat.zero_le 5) t).then
          (fun t₁ _ => want_symbol_settled .rparen t₁) (viable_symbol .rparen)).front
          left_operand_lparen).mono ?_
        rintro _ ⟨_, _, rfl, ⟨_, _, ⟨x, rfl⟩, rfl, rfl⟩, rfl⟩
        exact ⟨.paren x, rfl⟩
      | _ => cases hw
  · have hno : ∀ l t, s = .cons l t → startsOperand l.word = false := fun l t hst =>
      Bool.eq_false_iff.2 fun hl => hs ⟨l, t, hst, hl⟩
    exact .refuse (.unexpected viable_atom) fun s' hs' =>
      left_operand_of_not (hs'.front_eq_false hno)
termination_by (s.length, 0)

end

theorem expr_settled (s : TokenStream) :
    Settled (Derives (@Level.words 0)) (fun s => (expr s).left) s :=
  binary_settled (Nat.zero_le 5) s

theorem parenthesized_settled (s : TokenStream) :
    Settled (Then (· = [.symbol .lparen]) (Then (Derives (@Level.words 0)) (· = [.symbol .rparen])))
      (fun s => (parenthesized s).left) s := by
  have hreader : (fun s => (parenthesized s).left) = fun s =>
      (want (.symbol .lparen) s).left >>= fun t₁ => (expr t₁).left >>= fun t₂ =>
        (want (.symbol .rparen) t₂).left := funext fun s => left_parenthesized
  rw [hreader]
  exact (want_symbol_settled .lparen s).then
    (fun t₁ _ => (expr_settled t₁).then (fun t₂ _ => want_symbol_settled .rparen t₂)
      (viable_symbol .rparen))
    ((viable_expression (Nat.zero_le 5)).then (viable_symbol .rparen))

/-! ## Statements -/

/-- The words after a statement that make it a sequence. -/
def ContinuesSeq (ws : List Word) : Prop := ∀ c : Statement, ∃ d : Sequence, d.words = c.words ++ ws

/-- The words after the block of an `if`. -/
def Otherwise (ws : List Word) : Prop := ws = [] ∨ ∃ b : Braces, ws = .keyword .elseKw :: b.words

theorem continuesSeq_nil : ContinuesSeq [] := fun c => ⟨.last c, (List.append_nil _).symm⟩

/-- What follows `for`, if blocks are settled behind it. -/
theorem for_settled {t : TokenStream} (hblock : ∀ u : TokenStream, u.length < t.length →
      Settled (Derives Braces.words) (fun s => (block s).left) u) :
    Settled (fun ws => Derives Statement.words (.keyword .forKw :: ws))
      (fun t => (want (.symbol .lparen) t).left >>= fun t₁ =>
        (want (.keyword .varKw) t₁).left >>= fun t₂ => (ident t₂).left >>= fun t₃ =>
          (want (.keyword .ofKw) t₃).left >>= fun t₄ => (expr t₄).left >>= fun t₅ =>
            (want (.symbol .rparen) t₅).left >>= fun t₆ => (block t₆).left) t := by
  have hclose := (viable_symbol .rparen).then viable_braces
  have hdict := (viable_expression (Nat.zero_le 5)).then hclose
  have hof := (viable_keyword .ofKw).then hdict
  have hname := viable_name.then hof
  have hvar := (viable_keyword .varKw).then hname
  refine ((want_symbol_settled .lparen t).then (fun t₁ ht₁ =>
    (want_keyword_settled .varKw t₁).then (fun t₂ ht₂ =>
      (ident_settled t₂).then (fun t₃ ht₃ =>
        (want_keyword_settled .ofKw t₃).then (fun t₄ ht₄ =>
          (expr_settled t₄).then (fun t₅ ht₅ =>
            (want_symbol_settled .rparen t₅).then (fun t₆ ht₆ => hblock t₆ ?_)
              viable_braces) hclose) hdict) hof) hname) hvar).mono ?_
  · have hlt₁ : t₁.length < t.length := lt_of_left_eq_ok ht₁
    have hlt₂ : t₂.length < t₁.length := lt_of_left_eq_ok ht₂
    have hlt₃ : t₃.length < t₂.length := lt_of_left_eq_ok ht₃
    have hlt₄ : t₄.length < t₃.length := lt_of_left_eq_ok ht₄
    have hlt₅ : t₅.length < t₄.length := lt_of_left_eq_ok ht₅
    have hlt₆ : t₆.length < t₅.length := lt_of_left_eq_ok ht₆
    omega
  · rintro _ ⟨_, _, rfl, ⟨_, _, rfl, ⟨_, _, ⟨x, rfl⟩, ⟨_, _, rfl, ⟨_, _, ⟨d, rfl⟩,
      ⟨_, _, rfl, ⟨b, rfl⟩, rfl⟩, rfl⟩, rfl⟩, rfl⟩, rfl⟩, rfl⟩
    exact ⟨.forEach x d b, rfl⟩

mutual

theorem seq_settled (s : TokenStream) :
    Settled (Derives Sequence.words) (fun s => (seq s).left) s := by
  have hreader : (fun s => (seq s).left) = fun s => (stmt s).left >>= moreLeft :=
    funext fun s => left_seq
  rw [hreader]
  refine ((stmt_settled s).then (fun t ht => ?_) (.of_phrase continuesSeq_nil)).mono ?_
  · have hlt : t.length < s.length := lt_of_left_eq_ok ht
    exact more_settled t
  · rintro _ ⟨_, ws, ⟨c, rfl⟩, hmore, rfl⟩
    exact hmore c
termination_by (s.length, 2)

theorem more_settled (s : TokenStream) : Settled ContinuesSeq moreLeft s := by
  by_cases hs : s.token = .symbol .semi
  · obtain ⟨p, t, hst⟩ := TokenStream.token_eq_symbol_iff.1 hs
    have hlen : s.length = t.length + 1 := by rw [hst]; rfl
    rw [hst]
    refine ((rest_settled t).front moreLeft_semi).mono ?_
    rintro _ ⟨_, ws, rfl, hrest | ⟨d, rfl⟩, rfl⟩ c
    · refine ⟨.trailing c, ?_⟩
      rw [hrest]
      rfl
    · exact ⟨.more c d, rfl⟩
  · exact .stop continuesSeq_nil fun s' hs' => moreLeft_of_ne (hs'.token_eq ▸ hs)
termination_by (s.length, 0)

theorem rest_settled (s : TokenStream) :
    Settled (fun ws => ws = [] ∨ Derives Sequence.words ws) restLeft s := by
  have hends : ∀ s', SameFront s s' → endsSeq s' = endsSeq s := fun s' hs' =>
    Bool.eq_iff_iff.2 (by rw [endsSeq_iff, endsSeq_iff, EndsSequence, EndsSequence, hs'.token_eq])
  cases hs : endsSeq s with
  | true => exact .stop (.inl rfl) fun s' hs' => if_pos ((hends s' hs').trans hs)
  | false =>
    refine ((seq_settled s).congr fun s' hs' => if_neg ?_).mono fun ws h => .inr h
    rw [hends s' hs', hs]
    exact Bool.false_ne_true
termination_by (s.length, 3)

theorem stmt_settled (s : TokenStream) :
    Settled (Derives Statement.words) (fun s => (stmt s).left) s := by
  by_cases hs : ∃ l t, s = .cons l t ∧ startsStmt l.word = true
  · obtain ⟨⟨w, p⟩, t, hst, hw⟩ := hs
    have hlen : s.length = t.length + 1 := by rw [hst]; rfl
    have hexpr : Viable (Derives (@Level.words 0)) [] := viable_expression (Nat.zero_le 5)
    rw [hst]
    cases w with
    | bool b | num n | symbol y => cases hw
    | name x =>
      refine (((want_symbol_settled .assign t).then (fun t₁ _ => expr_settled t₁) hexpr).front
        (left_stmt_name x)).mono ?_
      rintro _ ⟨_, _, rfl, ⟨_, _, rfl, ⟨e, rfl⟩, rfl⟩, rfl⟩
      exact ⟨.assign x e, rfl⟩
    | keyword k =>
      cases k with
      | varKw =>
        refine (((ident_settled t).then (fun t₁ _ => (want_symbol_settled .assign t₁).then
          (fun t₂ _ => expr_settled t₂) hexpr) ((viable_symbol .assign).then hexpr)).front
          left_stmt_var).mono ?_
        rintro _ ⟨_, _, rfl, ⟨_, _, ⟨x, rfl⟩, ⟨_, _, rfl, ⟨e, rfl⟩, rfl⟩, rfl⟩, rfl⟩
        exact ⟨.var x e, rfl⟩
      | printKw =>
        refine ((expr_settled t).front left_stmt_print).mono ?_
        rintro _ ⟨_, _, rfl, ⟨e, rfl⟩, rfl⟩
        exact ⟨.print e, rfl⟩
      | ifKw =>
        have hno : Viable Otherwise [] := .of_phrase (.inl rfl)
        refine (((parenthesized_settled t).then (fun t₁ ht₁ => ?_) (viable_braces.then hno)).front
          left_stmt_if).mono ?_
        · have hlt₁ : t₁.length < t.length := lt_of_left_eq_ok ht₁
          refine (block_settled t₁).then (fun t₂ ht₂ => ?_) hno
          have hlt₂ : t₂.length < t₁.length := lt_of_left_eq_ok ht₂
          exact else_settled t₂
        · rintro _ ⟨_, _, rfl, ⟨_, _, ⟨_, _, rfl, ⟨_, _, ⟨c, rfl⟩, rfl, rfl⟩, rfl⟩, ⟨_, _, ⟨b, rfl⟩,
            hno, rfl⟩, rfl⟩, rfl⟩
          rcases hno with rfl | ⟨b', rfl⟩
          · refine ⟨.ifThen c b, ?_⟩
            simp [Statement.words]
          · refine ⟨.ifElse c b b', ?_⟩
            simp [Statement.words]
      | forKw =>
        refine ((for_settled fun u (hu : u.length < t.length) => block_settled u).front
          left_stmt_for).mono ?_
        rintro _ ⟨_, _, rfl, h, rfl⟩
        exact h
      | _ => cases hw
  · have hno : ∀ l t, s = .cons l t → startsStmt l.word = false := fun l t hst =>
      Bool.eq_false_iff.2 fun hl => hs ⟨l, t, hst, hl⟩
    exact .refuse (.unexpected viable_statement) fun s' hs' =>
      left_stmt_of_not (hs'.front_eq_false hno)
termination_by (s.length, 1)

theorem else_settled (s : TokenStream) : Settled Otherwise elseLeft s := by
  by_cases hs : s.token = .keyword .elseKw
  · obtain ⟨p, t, hst⟩ := TokenStream.token_eq_keyword_iff.1 hs
    have hlen : s.length = t.length + 1 := by rw [hst]; rfl
    rw [hst]
    refine ((block_settled t).front elseLeft_else).mono ?_
    rintro _ ⟨_, _, rfl, ⟨b, rfl⟩, rfl⟩
    exact .inr ⟨b, rfl⟩
  · exact .stop (.inl rfl) fun s' hs' => elseLeft_of_ne (hs'.token_eq ▸ hs)
termination_by (s.length, 0)

theorem block_settled (s : TokenStream) :
    Settled (Derives Braces.words) (fun s => (block s).left) s := by
  have hreader : (fun s => (block s).left) = fun s =>
      (want (.symbol .lbrace) s).left >>= fun t₁ => (seq t₁).left >>= fun t₂ =>
        (want (.symbol .rbrace) t₂).left := funext fun s => left_block
  rw [hreader]
  refine ((want_symbol_settled .lbrace s).then (fun t₁ ht₁ => ?_)
    (viable_sequence.then (viable_symbol .rbrace))).mono ?_
  · have hlt₁ : t₁.length < s.length := lt_of_left_eq_ok ht₁
    exact (seq_settled t₁).then (fun t₂ _ => want_symbol_settled .rbrace t₂)
      (viable_symbol .rbrace)
  · rintro _ ⟨_, _, rfl, ⟨_, _, ⟨d, rfl⟩, rfl, rfl⟩, rfl⟩
    exact ⟨.mk d, rfl⟩
termination_by (s.length, 0)

end

end Grammar

end PairDict
