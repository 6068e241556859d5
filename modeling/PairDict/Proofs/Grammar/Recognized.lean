import PairDict.Proofs.Grammar.Derived
import PairDict.Proofs.Grammar.Unambiguous

/-! # Whatever is derived is read

A stream that spells a derivation is read to the end of that derivation, and the tree
that is read is the tree of the derivation, positions apart.  Readers take what they can
get, so what follows the derivation must not continue it: an expression may not be
followed by an operator or a bracket, and a statement is followed by a separator or by
the end of its sequence.

The readers of an operand, and of an expression in brackets, can be followed step by
step.  The loop over the operators does not return between the levels, so an expression
on level `n` is not read by a call of its own.  `ReadUpTo` says instead that reading **comes
down to going on** with the tree of the expression and with what follows it, and this is
what an induction on derivations can show (`Level.read`).
-/
namespace PairDict

namespace Grammar

open PairDict.Parser

/-! ## Expressions -/

/-- Reading from `s` comes down to going on from `r` with an expression of the shape
`e`. -/
def ReadUpTo (level : Nat) (s r : TokenStream) (e : Expr Unit) : Prop :=
  ∃ y, y.map blank = e ∧ ∀ z t, (binaryTail level y r).Gives z t → (binary level s).Gives z t

/-- There is nothing to go on with if what follows does not bind. -/
theorem ReadUpTo.finish {level : Nat} {s r : TokenStream} {e : Expr Unit}
    (h : ReadUpTo level s r e) (hr : r.token.precedence ≤ level) :
    ∃ y, y.map blank = e ∧ (binary level s).Gives y r := by
  obtain ⟨y, hy, hread⟩ := h
  exact ⟨y, hy, hread y r ((binaryTail_of_le hr).2 ⟨rfl, rfl⟩)⟩

/-- Nor if what follows continues no expression at all. -/
theorem ReadUpTo.close {s r : TokenStream} {e : Expr Unit}
    (h : Follows 0 r → ReadUpTo 0 s r e) (hr : Closed r) :
    ∃ y, y.map blank = e ∧ (binary 0 s).Gives y r :=
  (h (hr.follows 0)).finish (Nat.le_of_eq hr.1)

mutual

/-- **An expression on a level is read by the loop of every looser level**, if it is not
followed by a bracket, nor by an operator that binds tighter than its own. -/
theorem Level.read {level : Nat} : ∀ {n : Nat} (d : Level n) {s r : TokenStream}, level ≤ n →
    Spells d.words s r → Follows n r → ReadUpTo level s r d.tree
  | _, .prefixed x, s, r, hlevel, hs, hr => by
    obtain ⟨y, hy, hread⟩ := x.read hs hr.2
    exact ⟨y, hy, fun z t hz => binary_gives_iff.2 ⟨y, r, hread, hz⟩⟩
  | _, .tighter x, s, r, hlevel, hs, hr => x.read (Nat.le_succ_of_le hlevel) hs hr.tighter
  | n, @Level.binary _ op hop x y, s, r, hlevel, hs, hr => by
    obtain ⟨t, hx, p, t', rfl, hy⟩ := Spells.append_iff.1 hs
    have hprec : (Token.symbol op).precedence = n + 1 := precedence_of_operator hop
    obtain ⟨x', hxTree, hxRead⟩ := x.read hlevel hx (follows_operator hop)
    -- the right operand ends where the next operator of the level, or a looser one, stands
    obtain ⟨y', hyTree, hyRead⟩ := (y.read (Nat.le_refl _) hy hr.tighter).finish hr.1
    refine ⟨combine (.symbol op) x' y', ?_, fun z u hz => hxRead z u ?_⟩
    · rw [map_combine, hxTree, hyTree, Level.tree]
    · have hlt : level < (Token.symbol op).precedence := hprec ▸ Nat.lt_succ_of_le hlevel
      exact (binaryTail_of_lt hlt).2 ⟨y', r, hprec ▸ hyRead, hz⟩

theorem Prefixed.read : ∀ (d : Prefixed) {s r : TokenStream}, Spells d.words s r →
    r.token ≠ .symbol .lbrack → ∃ y, y.map blank = d.tree ∧ (unary s).Gives y r
  | .bare x, s, r, hs, hb => by
    obtain ⟨y, hy, hread⟩ := x.read hs hb
    obtain ⟨w, p, t, rfl, hw, -⟩ := Postfixed.front hs
    refine ⟨y, hy, (unary_of_not_isUnary ?_).2 hread⟩
    rintro _ _ ⟨⟩
    exact Bool.eq_false_iff.2 fun h => hw (mem_prefixes_iff.2 h)
  | .applied op hop x, s, r, hs, hb => by
    obtain ⟨p, t, rfl, hx⟩ := hs
    obtain ⟨y, hy, hread⟩ := x.read hx hb
    refine ⟨.unary p op.token y, ?_, (unary_of_isUnary (mem_prefixes_iff.1 hop)).2 ⟨y, hread, rfl⟩⟩
    rw [Prefixed.tree, ← hy]
    rfl

theorem Postfixed.read : ∀ (d : Postfixed) {s r : TokenStream}, Spells d.words s r →
    r.token ≠ .symbol .lbrack → ∃ y, y.map blank = d.tree ∧ (postfixed s).Gives y r
  | .mk base suffixes, s, r, hs, hb => by
    obtain ⟨t, hbase, hsuffixes⟩ := Spells.append_iff.1 hs
    obtain ⟨x, hx, hread⟩ := base.read hbase
    obtain ⟨y, hy, hread'⟩ := suffixes.read x hsuffixes hb
    refine ⟨y, ?_, postfixed_gives_iff.2 ⟨x, t, hread, hread'⟩⟩
    rw [hy, hx, Postfixed.tree]

theorem Suffixes.read : ∀ (d : Suffixes) (x : Expr Pos) {s r : TokenStream}, Spells d.words s r →
    r.token ≠ .symbol .lbrack →
    ∃ y, y.map blank = d.tree (x.map blank) ∧ (brackets x s).Gives y r
  | .nil, x, s, r, hs, hb => by
    cases hs
    exact ⟨x, rfl, (brackets_of_ne hb).2 ⟨rfl, rfl⟩⟩
  | .cons k slot rest, x, s, r, hs, hb => by
    simp only [Suffixes.words, Spells.cons_iff, Spells.append_iff] at hs
    obtain ⟨p, t, rfl, t₁, hk, _, hslot, q, t₂, rfl, hrest⟩ := hs
    obtain ⟨key, hkey, hkeyRead⟩ := ReadUpTo.close (k.read (Nat.le_refl _) hk) (Slot.closed hslot)
    obtain ⟨z, hz, hafter⟩ := slot.read x key hslot
    obtain ⟨y, hy, hyRead⟩ := rest.read z hrest hb
    refine ⟨y, ?_, brackets_of_lbrack.2 ⟨key, t₁, z, t₂, hkeyRead, hafter, hyRead⟩⟩
    rw [hy, hz, hkey, Suffixes.tree]

theorem Slot.read : ∀ (d : Slot) (x key : Expr Pos) {s r : TokenStream} {q : Pos},
    Spells d.words s (.cons ⟨.symbol .rbrack, q⟩ r) →
    ∃ y, y.map blank = d.tree (x.map blank) (key.map blank) ∧ AfterKey x key s y r
  | .get, x, key, s, r, q, hs => by
    cases hs
    exact ⟨_, rfl, .get⟩
  | .delete, x, key, s, r, q, hs => by
    obtain ⟨p, _, rfl, rfl⟩ := hs
    exact ⟨_, rfl, .delete⟩
  | .update v, x, key, s, r, q, hs => by
    obtain ⟨p, t, rfl, hv⟩ := hs
    obtain ⟨value, hvalue, hvalueRead⟩ := ReadUpTo.close (v.read (Nat.le_refl _) hv) ⟨rfl, nofun⟩
    -- no value starts with a closing bracket, so this is not taken for a deletion
    refine ⟨.store x.ann .update x key value, ?_, .update (Level.front hv) hvalueRead⟩
    rw [Slot.tree, ← hvalue]
    rfl

theorem Atom.read : ∀ (d : Atom) {s r : TokenStream}, Spells d.words s r →
    ∃ y, y.map blank = d.tree ∧ (operand s).Gives y r
  | .entry k v, s, r, hs => by
    simp only [Atom.words, Spells.cons_iff, Spells.append_iff, Spells.nil_iff] at hs
    obtain ⟨p, t, rfl, _, hk, q, t₁, rfl, _, hv, q', _, rfl, rfl⟩ := hs
    obtain ⟨key, hkey, hkeyRead⟩ :=
      ReadUpTo.close (k.read (Nat.le_refl _) hk) ⟨rfl, nofun⟩
    obtain ⟨value, hvalue, hvalueRead⟩ :=
      ReadUpTo.close (v.read (Nat.le_refl _) hv) ⟨rfl, nofun⟩
    refine ⟨.entry p key value, ?_,
      operand_of_lbrack.2 ⟨key, q, t₁, value, q', hkeyRead, hvalueRead, rfl⟩⟩
    rw [Atom.tree, ← hkey, ← hvalue]
    rfl
  | .bool b, s, r, hs => by
    obtain ⟨p, _, rfl, rfl⟩ := hs
    exact ⟨.bool p b, rfl, operand_of_bool.2 ⟨rfl, rfl⟩⟩
  | .num n, s, r, hs => by
    obtain ⟨p, _, rfl, rfl⟩ := hs
    exact ⟨.int p n, rfl, operand_of_num.2 ⟨rfl, rfl⟩⟩
  | .name x, s, r, hs => by
    obtain ⟨p, _, rfl, rfl⟩ := hs
    exact ⟨.name p x, rfl, operand_of_name.2 ⟨rfl, rfl⟩⟩
  | .paren x, s, r, hs => by
    simp only [Atom.words, Spells.cons_iff, Spells.append_iff, Spells.nil_iff] at hs
    obtain ⟨p, t, rfl, _, hx, q, _, rfl, rfl⟩ := hs
    obtain ⟨y, hy, hyRead⟩ :=
      ReadUpTo.close (x.read (Nat.le_refl _) hx) ⟨rfl, nofun⟩
    exact ⟨y, hy, operand_of_lparen.2 ⟨q, hyRead⟩⟩

end

theorem Expression.read (d : Expression) {s r : TokenStream} (hs : Spells d.words s r)
    (hr : Closed r) : ∃ y, y.map blank = d.tree ∧ (expr s).Gives y r :=
  ReadUpTo.close (Level.read d (Nat.le_refl _) hs) hr

/-! ## Statements -/

theorem endsSeq_iff {s : TokenStream} : endsSeq s = true ↔ EndsSequence s := by
  constructor
  · intro h
    match s, h with
    | .eof _, _ => exact .inr rfl
    | .cons ⟨.symbol .rbrace, _⟩ _, _ => exact .inl rfl
  · rintro (h | h)
    · obtain ⟨p, t, rfl⟩ := TokenStream.token_eq_symbol_iff.1 h
      rfl
    · match s, h with
      | .eof _, _ => rfl
      | .cons ⟨w, _⟩ _, h => cases w <;> cases h

mutual

theorem Statement.read : ∀ (d : Statement) {s r : TokenStream}, Spells d.words s r →
    EndsStatement r → ∃ c, c.map blank = d.tree ∧ (stmt s).Gives c r
  | .var x e, s, r, hs, hr => by
    obtain ⟨p, _, rfl, q, _, rfl, q', t, rfl, he⟩ := hs
    obtain ⟨y, hy, hread⟩ := Expression.read e he hr.closed
    refine ⟨.var p ⟨q, x⟩ y, ?_, stmt_of_var.2 ⟨x, q, q', t, y, rfl, hread, rfl⟩⟩
    rw [Statement.tree, ← hy]
    rfl
  | .assign x e, s, r, hs, hr => by
    obtain ⟨p, _, rfl, q, t, rfl, he⟩ := hs
    obtain ⟨y, hy, hread⟩ := Expression.read e he hr.closed
    refine ⟨.assign p ⟨p, x⟩ y, ?_, stmt_of_name.2 ⟨q, t, y, rfl, hread, rfl⟩⟩
    rw [Statement.tree, ← hy]
    rfl
  | .print e, s, r, hs, hr => by
    obtain ⟨p, t, rfl, he⟩ := hs
    obtain ⟨y, hy, hread⟩ := Expression.read e he hr.closed
    refine ⟨.print p y, ?_, stmt_of_print.2 ⟨y, hread, rfl⟩⟩
    rw [Statement.tree, ← hy]
    rfl
  | .ifThen c b, s, r, hs, hr => by
    simp only [Statement.words, Spells.cons_iff, Spells.append_iff] at hs
    obtain ⟨p, _, rfl, q, t, rfl, _, hc, q', t₁, rfl, hb⟩ := hs
    obtain ⟨cond, hcond, hcondRead⟩ := Expression.read c hc ⟨rfl, nofun⟩
    obtain ⟨yes, hyes, hyesRead⟩ := b.read hb
    have hparen := parenthesized_gives_iff.2 ⟨q, t, q', rfl, hcondRead⟩
    refine ⟨.ifThen p cond yes, ?_,
      stmt_of_if.2 ⟨cond, t₁, yes, r, hparen, hyesRead, .inl ⟨hr.not_else, rfl, rfl⟩⟩⟩
    rw [Statement.tree, ← hcond, ← hyes]
    rfl
  | .ifElse c b b', s, r, hs, hr => by
    simp only [Statement.words, Spells.cons_iff, Spells.append_iff] at hs
    obtain ⟨p, _, rfl, q, t, rfl, _, hc, q', t₁, rfl, _, hb, q'', t₂, rfl, hb'⟩ := hs
    obtain ⟨cond, hcond, hcondRead⟩ := Expression.read c hc ⟨rfl, nofun⟩
    obtain ⟨yes, hyes, hyesRead⟩ := b.read hb
    obtain ⟨no, hno, hnoRead⟩ := b'.read hb'
    have hparen := parenthesized_gives_iff.2 ⟨q, t, q', rfl, hcondRead⟩
    refine ⟨.ifElse p cond yes no, ?_, stmt_of_if.2
      ⟨cond, t₁, yes, _, hparen, hyesRead, .inr ⟨q'', t₂, no, rfl, hnoRead, rfl⟩⟩⟩
    rw [Statement.tree, ← hcond, ← hyes, ← hno]
    rfl
  | .forEach x d b, s, r, hs, hr => by
    simp only [Statement.words, Spells.cons_iff, Spells.append_iff] at hs
    obtain ⟨p, _, rfl, q₁, _, rfl, q₂, _, rfl, q₃, _, rfl, q₄, t₁, rfl, _, hd, q₅, t₂, rfl, hb⟩ :=
      hs
    obtain ⟨dict, hdict, hdictRead⟩ := Expression.read d hd ⟨rfl, nofun⟩
    obtain ⟨body, hbody, hbodyRead⟩ := b.read hb
    refine ⟨.forEach p ⟨q₃, x⟩ dict body, ?_, stmt_of_for.2
      ⟨x, q₁, q₂, q₃, q₄, t₁, dict, q₅, t₂, body, rfl, hdictRead, hbodyRead, rfl⟩⟩
    rw [Statement.tree, ← hdict, ← hbody]
    rfl

theorem Braces.read : ∀ (d : Braces) {s r : TokenStream}, Spells d.words s r →
    ∃ b, b.map blank = d.tree ∧ (block s).Gives b r
  | .mk body, s, r, hs => by
    simp only [Braces.words, Spells.cons_iff, Spells.append_iff, Spells.nil_iff] at hs
    obtain ⟨p, t, rfl, _, hbody, q, _, rfl, rfl⟩ := hs
    obtain ⟨y, hy, hread⟩ := body.read hbody (.inl rfl)
    refine ⟨.mk p y q, ?_, block_gives_iff.2 ⟨p, t, y, q, rfl, hread, rfl⟩⟩
    rw [Braces.tree, ← hy]
    rfl

theorem Sequence.read : ∀ (d : Sequence) {s r : TokenStream}, Spells d.words s r →
    EndsSequence r → ∃ body, body.map blank = d.tree ∧ (seq s).Gives body r
  | .last c, s, r, hs, hr => by
    obtain ⟨first, hfirst, hread⟩ := c.read hs (.inr hr)
    refine ⟨.cons s.pos first (.empty r.pos), ?_,
      seq_gives_iff.2 ⟨first, r, hread, .inl ⟨hr.not_semi, rfl, rfl⟩⟩⟩
    rw [Sequence.tree, ← hfirst]
    rfl
  | .trailing c, s, r, hs, hr => by
    obtain ⟨_, hc, p, _, rfl, rfl⟩ := Spells.append_iff.1 hs
    obtain ⟨first, hfirst, hread⟩ := c.read hc (.inl rfl)
    refine ⟨.cons s.pos first (.empty _), ?_, seq_gives_iff.2
      ⟨first, _, hread, .inr ⟨p, _, rfl, .inl ⟨endsSeq_iff.2 hr, rfl, rfl⟩⟩⟩⟩
    rw [Sequence.tree, ← hfirst]
    rfl
  | .more c rest, s, r, hs, hr => by
    obtain ⟨_, hc, p, t, rfl, hrest⟩ := Spells.append_iff.1 hs
    obtain ⟨first, hfirst, hread⟩ := c.read hc (.inl rfl)
    obtain ⟨body, hbody, hbodyRead⟩ := rest.read hrest hr
    -- a statement follows the separator, which is therefore not the last
    have hgoes : endsSeq t = false :=
      Bool.eq_false_iff.2 fun h => Sequence.front hrest (endsSeq_iff.1 h)
    refine ⟨.cons s.pos first body, ?_, seq_gives_iff.2
      ⟨first, _, hread, .inr ⟨p, t, rfl, .inr ⟨hgoes, body, hbodyRead, rfl⟩⟩⟩⟩
    rw [Sequence.tree, ← hfirst, ← hbody]
    rfl

end

end Grammar

/-! ## Programs -/

/-- **The readers accept exactly the grammar, and build the tree of the one derivation.**
A stream is read as a program of the shape `a` if and only if it ends with its source and
its words have a derivation with the tree `a`; and no words have two derivations. -/
theorem TokenStream.program_recognizes_grammar :
    (∀ (s : TokenStream) (a : Program Unit),
      (∃ p, s.program = .ok p ∧ p.shape = a) ↔
        s.failure? = none ∧ ∃ d : Grammar.Sequence,
          d.words = s.lexemes.map Lexeme.word ∧ d.program = a) ∧
      ∀ d d' : Grammar.Sequence, d.words = d'.words → d = d' := by
  refine ⟨fun s a => ⟨?_, ?_⟩, fun d d' h => Grammar.Sequence.words_injective h⟩
  · rintro ⟨p, hp, rfl⟩
    obtain ⟨body, q, hread, rfl⟩ := program_eq_ok_iff.1 hp
    obtain ⟨d, hd, htree⟩ := Parser.seq_derives hread
    obtain ⟨hfail, hwords⟩ := Spells.eof_iff.1 ⟨q, hd⟩
    exact ⟨hfail, d, hwords, congrArg (Program.mk ()) htree⟩
  · rintro ⟨hfail, d, hwords, rfl⟩
    obtain ⟨q, hd⟩ := Spells.eof_iff.2 ⟨hfail, hwords⟩
    obtain ⟨body, hbody, hread⟩ := d.read hd (.inr rfl)
    exact ⟨⟨s.pos, body⟩, program_eq_ok_iff.2 ⟨body, q, hread, rfl⟩,
      congrArg (Program.mk ()) hbody⟩

end PairDict
