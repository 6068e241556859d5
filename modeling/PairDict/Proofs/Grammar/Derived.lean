import PairDict.Proofs.Grammar.Derivation
import PairDict.Proofs.Grammar.Reading

/-! # Whatever is read is derived

A reader that succeeds has a derivation of the words that it has passed over, and the
tree that it gives is the tree of the derivation, positions apart.

Expressions are read by **precedence climbing**: one loop takes the operators of all
levels, while the grammar has a rule for each.  The loop starts with a derivation on the
tightest level.  Its invariant is that the expression so far stands on some level `k`,
and that the operator which comes next, if one does, stands on `k` or is looser
(`binaryTail_derives`); so the next operator finds its left operand on its own level,
after the derivation has been loosened to it.
-/
namespace PairDict

/-- Forget an annotation. -/
abbrev blank {α : Type} (_ : α) : Unit := ()

namespace Grammar

theorem mem_prefixes_iff {w : Word} : w ∈ prefixes ↔ Parser.isUnary w = true := by
  cases w with
  | symbol y => cases y <;> decide
  | keyword k => cases k <;> decide
  | _ => simp [prefixes, Parser.isUnary]

theorem map_combine (op : Symbol) (x y : Expr Pos) :
    (Parser.combine (.symbol op) x y).map blank = join op (x.map blank) (y.map blank) := by
  cases op <;> rfl

end Grammar

namespace Parser

open Grammar

/-! ## Expressions

The recursion is that of the readers, so a stream stays a variable, and an equation says
what stands at its front. -/

mutual

theorem binary_derives {level : Nat} {s r : TokenStream} {y : Expr Pos} (hlevel : level ≤ 5)
    (h : (binary level s).Gives y r) :
    ∃ d : Level level, Spells d.words s r ∧ d.tree = y.map blank ∧ r.token.precedence ≤ level := by
  obtain ⟨x, t, hx, hy⟩ := binary_gives_iff.1 h
  have hlen : t.length < s.length := hx.lt
  obtain ⟨d, hd, hdx⟩ := unary_derives hx
  -- any operator may follow an operand
  have ht : t.token.precedence ≤ 5 + 1 := Nat.le_succ_of_le (precedence_le _)
  obtain ⟨e, ws, hwords, hws, he, hr⟩ := binaryTail_derives (.prefixed d) hdx hlevel ht hy
  refine ⟨e, ?_, he, hr⟩
  rw [hwords, Spells.append_iff]
  exact ⟨t, hd, hws⟩
termination_by (s.length, 3)

/-- **The loop over operators of all levels follows the rules of the single levels.** -/
theorem binaryTail_derives {level k : Nat} {s r : TokenStream} {x y : Expr Pos} (d : Level k)
    (hd : d.tree = x.map blank) (hlevel : level ≤ k) (hs : s.token.precedence ≤ k + 1)
    (h : (binaryTail level x s).Gives y r) :
    ∃ (e : Level level) (ws : List Word), e.words = d.words ++ ws ∧ Spells ws s r ∧
      e.tree = y.map blank ∧ r.token.precedence ≤ level := by
  by_cases hle : s.token.precedence ≤ level
  · obtain ⟨rfl, rfl⟩ := (binaryTail_of_le hle).1 h
    obtain ⟨e, hwords, htree⟩ := d.loosen hlevel
    exact ⟨e, [], by rw [hwords, List.append_nil], rfl, htree.trans hd, hle⟩
  · -- what comes next is an operator on some level `n`, where it finds its operands
    obtain ⟨n, hn⟩ : ∃ n, s.token.precedence = n + 1 :=
      Nat.exists_eq_add_one_of_ne_zero fun h0 => hle (h0 ▸ Nat.zero_le _)
    have hnk : n ≤ k := by omega
    have hln : level ≤ n := by omega
    obtain ⟨op, p, t, hst, hop⟩ := operator_of_precedence hn
    have hprec : (Token.symbol op).precedence = n + 1 := precedence_of_operator hop
    rw [hst, binaryTail_of_lt (hprec ▸ Nat.lt_succ_of_le hln)] at h
    obtain ⟨z, t', hz, hy⟩ := h
    have hlen : t'.length < t.length := hz.lt
    have hlen' : s.length = t.length + 1 := by rw [hst]; rfl
    have hz' : (binary (n + 1) t).Gives z t' := hprec ▸ hz
    obtain ⟨right, hright, hrightTree, ht'⟩ := binary_derives (hprec ▸ precedence_le _) hz'
    obtain ⟨left, hleft, hleftTree⟩ := d.loosen hnk
    have htree : (Level.binary hop left right).tree = (combine (.symbol op) x z).map blank := by
      rw [Level.tree, map_combine, hleftTree, hd, hrightTree]
    obtain ⟨e, ws, hwords, hws, he, hr⟩ :=
      binaryTail_derives (.binary hop left right) htree hln ht' hy
    refine ⟨e, .symbol op :: (right.words ++ ws), ?_, ?_, he, hr⟩
    · rw [hwords, Level.words, hleft, List.append_assoc, List.cons_append]
    · simp only [Spells.cons_iff, Spells.append_iff]
      exact ⟨p, t, hst, t', hright, hws⟩
termination_by (s.length, 0)

theorem unary_derives {s r : TokenStream} {y : Expr Pos} (h : (unary s).Gives y r) :
    ∃ d : Prefixed, Spells d.words s r ∧ d.tree = y.map blank := by
  by_cases hop : ∃ l t, s = .cons l t ∧ isUnary l.word = true
  · obtain ⟨⟨op, p⟩, t, hst, hop⟩ := hop
    have hlen : s.length = t.length + 1 := by rw [hst]; rfl
    rw [hst, unary_of_isUnary hop] at h
    obtain ⟨x, hx, hxy⟩ := h
    obtain ⟨d, hd, hdx⟩ := postfixed_derives hx
    refine ⟨.applied op (mem_prefixes_iff.2 hop) d, ⟨p, t, hst, hd⟩, ?_⟩
    rw [Prefixed.tree, hdx, hxy]
    rfl
  · have hno : ∀ l t, s = .cons l t → isUnary l.word = false := fun l t hst =>
      Bool.eq_false_iff.2 fun hl => hop ⟨l, t, hst, hl⟩
    obtain ⟨d, hd, hdx⟩ := postfixed_derives ((unary_of_not_isUnary hno).1 h)
    exact ⟨.bare d, hd, hdx⟩
termination_by (s.length, 2)

theorem postfixed_derives {s r : TokenStream} {y : Expr Pos} (h : (postfixed s).Gives y r) :
    ∃ d : Postfixed, Spells d.words s r ∧ d.tree = y.map blank := by
  obtain ⟨x, t, hx, hy⟩ := postfixed_gives_iff.1 h
  have hlen : t.length < s.length := hx.lt
  obtain ⟨base, hbase, hbaseTree⟩ := operand_derives hx
  obtain ⟨suffixes, hsuffixes, htree⟩ := brackets_derives hy
  refine ⟨.mk base suffixes, Spells.append_iff.2 ⟨t, hbase, hsuffixes⟩, ?_⟩
  rw [Postfixed.tree, hbaseTree, htree]
termination_by (s.length, 1)

theorem brackets_derives {s r : TokenStream} {x y : Expr Pos} (h : (brackets x s).Gives y r) :
    ∃ d : Suffixes, Spells d.words s r ∧ d.tree (x.map blank) = y.map blank := by
  by_cases hs : s.token = .symbol .lbrack
  · obtain ⟨p, t, hst⟩ := TokenStream.token_eq_symbol_iff.1 hs
    have hlen : s.length = t.length + 1 := by rw [hst]; rfl
    rw [hst, brackets_of_lbrack] at h
    obtain ⟨key, t₁, z, t₂, hkey, hafter, hy⟩ := h
    have hlen₁ : t₁.length < t.length := hkey.lt
    have hlen₂ : t₂.length < t₁.length := hafter.lt
    obtain ⟨k, hk, hkTree, -⟩ := binary_derives (Nat.zero_le _) hkey
    obtain ⟨slot, q, hslot, hslotTree⟩ := afterKey_derives hafter
    obtain ⟨rest, hrest, htree⟩ := brackets_derives hy
    refine ⟨.cons k slot rest, ?_, ?_⟩
    · simp only [Suffixes.words, Spells.cons_iff, Spells.append_iff]
      exact ⟨p, t, hst, t₁, hk, _, hslot, q, t₂, rfl, hrest⟩
    · rw [Suffixes.tree, hkTree, hslotTree, htree]
  · obtain ⟨rfl, rfl⟩ := (brackets_of_ne hs).1 h
    exact ⟨.nil, rfl, rfl⟩
termination_by (s.length, 0)

theorem afterKey_derives {x key y : Expr Pos} {s r : TokenStream} (h : AfterKey x key s y r) :
    ∃ (d : Slot) (q : Pos), Spells d.words s (.cons ⟨.symbol .rbrack, q⟩ r) ∧
      d.tree (x.map blank) (key.map blank) = y.map blank := by
  match s, h with
  | _, .get => exact ⟨.get, _, rfl, rfl⟩
  | _, .delete => exact ⟨.delete, _, ⟨_, _, rfl, rfl⟩, rfl⟩
  | .cons _ t, .update _ hvalue =>
    obtain ⟨v, hv, hvTree, -⟩ := binary_derives (Nat.zero_le _) hvalue
    refine ⟨.update v, _, ⟨_, t, rfl, hv⟩, ?_⟩
    rw [Slot.tree, hvTree]
    rfl
termination_by (s.length, 0)

theorem operand_derives {s r : TokenStream} {y : Expr Pos} (h : (operand s).Gives y r) :
    ∃ d : Atom, Spells d.words s r ∧ d.tree = y.map blank := by
  rcases operand_front h with ⟨p, t, hst⟩ | ⟨b, p, t, hst⟩ | ⟨n, p, t, hst⟩ | ⟨x, p, t, hst⟩ |
    ⟨p, t, hst⟩
  · rw [hst, operand_of_lbrack] at h
    obtain ⟨key, q, t₁, value, q', hkey, hvalue, hy⟩ := h
    have hlen : s.length = t.length + 1 := by rw [hst]; rfl
    have hlen₁ : t₁.length + 1 < t.length := hkey.lt
    obtain ⟨k, hk, hkTree, -⟩ := binary_derives (Nat.zero_le _) hkey
    obtain ⟨v, hv, hvTree, -⟩ := binary_derives (Nat.zero_le _) hvalue
    refine ⟨.entry k v, ?_, ?_⟩
    · simp only [Atom.words, Spells.cons_iff, Spells.append_iff, Spells.nil_iff]
      exact ⟨p, t, hst, _, hk, q, t₁, rfl, _, hv, q', r, rfl, rfl⟩
    · rw [Atom.tree, hkTree, hvTree, hy]
      rfl
  · rw [hst, operand_of_bool] at h
    obtain ⟨rfl, hr⟩ := h
    exact ⟨.bool b, ⟨p, t, hst, hr.symm⟩, rfl⟩
  · rw [hst, operand_of_num] at h
    obtain ⟨rfl, hr⟩ := h
    exact ⟨.num n, ⟨p, t, hst, hr.symm⟩, rfl⟩
  · rw [hst, operand_of_name] at h
    obtain ⟨rfl, hr⟩ := h
    exact ⟨.name x, ⟨p, t, hst, hr.symm⟩, rfl⟩
  · rw [hst, operand_of_lparen] at h
    obtain ⟨q, hy⟩ := h
    have hlen : s.length = t.length + 1 := by rw [hst]; rfl
    obtain ⟨d, hd, hdTree, -⟩ := binary_derives (Nat.zero_le _) hy
    refine ⟨.paren d, ?_, hdTree⟩
    simp only [Atom.words, Spells.cons_iff, Spells.append_iff, Spells.nil_iff]
    exact ⟨p, t, hst, _, hd, q, r, rfl, rfl⟩
termination_by (s.length, 0)

end

theorem expr_derives {s r : TokenStream} {y : Expr Pos} (h : (expr s).Gives y r) :
    ∃ d : Expression, Spells d.words s r ∧ d.tree = y.map blank := by
  obtain ⟨d, hd, htree, -⟩ := binary_derives (Nat.zero_le _) h
  exact ⟨d, hd, htree⟩

/-! ## Statements -/

mutual

theorem seq_derives {s r : TokenStream} {body : Seq Pos} (h : (seq s).Gives body r) :
    ∃ d : Sequence, Spells d.words s r ∧ d.tree = body.map blank := by
  obtain ⟨first, t, hfirst, hafter⟩ := seq_gives_iff.1 h
  have hlen : t.length < s.length := hfirst.lt
  obtain ⟨d, hd, hdTree⟩ := stmt_derives hfirst
  rcases hafter with ⟨-, hrt, hbody⟩ |
    ⟨p, t', htt', ⟨-, hrt', hbody⟩ | ⟨-, rest, hrest, hbody⟩⟩
  · refine ⟨.last d, hrt ▸ hd, ?_⟩
    rw [Sequence.tree, hdTree, hbody]
    rfl
  · refine ⟨.trailing d, Spells.append_iff.2 ⟨t, hd, p, t', htt', hrt'.symm⟩, ?_⟩
    rw [Sequence.tree, hdTree, hbody]
    rfl
  · have hlen' : t.length = t'.length + 1 := by rw [htt']; rfl
    obtain ⟨e, he, heTree⟩ := seq_derives hrest
    refine ⟨.more d e, Spells.append_iff.2 ⟨t, hd, p, t', htt', he⟩, ?_⟩
    rw [Sequence.tree, hdTree, heTree, hbody]
    rfl
termination_by (s.length, 1)

theorem stmt_derives {s r : TokenStream} {c : Stmt Pos} (h : (stmt s).Gives c r) :
    ∃ d : Statement, Spells d.words s r ∧ d.tree = c.map blank := by
  rcases stmt_front h with ⟨p, t, hst⟩ | ⟨x, p, t, hst⟩ | ⟨p, t, hst⟩ | ⟨p, t, hst⟩ | ⟨p, t, hst⟩
  · rw [hst, stmt_of_var] at h
    obtain ⟨x, q, q', t', value, ht, hvalue, hc⟩ := h
    obtain ⟨e, he, heTree⟩ := expr_derives hvalue
    refine ⟨.var x e, ⟨p, t, hst, q, _, ht, q', t', rfl, he⟩, ?_⟩
    rw [Statement.tree, heTree, hc]
    rfl
  · rw [hst, stmt_of_name] at h
    obtain ⟨q, t', value, ht, hvalue, hc⟩ := h
    obtain ⟨e, he, heTree⟩ := expr_derives hvalue
    refine ⟨.assign x e, ⟨p, t, hst, q, t', ht, he⟩, ?_⟩
    rw [Statement.tree, heTree, hc]
    rfl
  · rw [hst, stmt_of_print] at h
    obtain ⟨x, hx, hc⟩ := h
    obtain ⟨e, he, heTree⟩ := expr_derives hx
    refine ⟨.print e, ⟨p, t, hst, he⟩, ?_⟩
    rw [Statement.tree, heTree, hc]
    rfl
  · rw [hst, stmt_of_if] at h
    obtain ⟨cond, t₁, yes, t₂, hcond, hyes, hafter⟩ := h
    have hlen : s.length = t.length + 1 := by rw [hst]; rfl
    have hlen₁ : t₁.length < t.length := hcond.lt
    have hlen₂ : t₂.length < t₁.length := hyes.lt
    obtain ⟨q, t', q', ht, hcond⟩ := parenthesized_gives_iff.1 hcond
    obtain ⟨e, he, heTree⟩ := expr_derives hcond
    obtain ⟨b, hb, hbTree⟩ := block_derives hyes
    rcases hafter with ⟨-, hr, hc⟩ | ⟨q'', t₃, no, ht₂, hno, hc⟩
    · refine ⟨.ifThen e b, ?_, ?_⟩
      · simp only [Statement.words, Spells.cons_iff, Spells.append_iff]
        exact ⟨p, t, hst, q, t', ht, _, he, q', t₁, rfl, hr ▸ hb⟩
      · rw [Statement.tree, heTree, hbTree, hc]
        rfl
    · have hlen₃ : t₂.length = t₃.length + 1 := by rw [ht₂]; rfl
      obtain ⟨b', hb', hbTree'⟩ := block_derives hno
      refine ⟨.ifElse e b b', ?_, ?_⟩
      · simp only [Statement.words, Spells.cons_iff, Spells.append_iff]
        exact ⟨p, t, hst, q, t', ht, _, he, q', t₁, rfl, t₂, hb, q'', t₃, ht₂, hb'⟩
      · rw [Statement.tree, heTree, hbTree, hbTree', hc]
        rfl
  · rw [hst, stmt_of_for] at h
    obtain ⟨x, q₁, q₂, q₃, q₄, t₁, dict, q₅, t₂, body, ht, hdict, hbody, hc⟩ := h
    have hlen : s.length = t.length + 1 := by rw [hst]; rfl
    have hlen₁ : t.length = t₁.length + 1 + 1 + 1 + 1 := by rw [ht]; rfl
    have hlen₂ : t₂.length + 1 < t₁.length := hdict.lt
    obtain ⟨e, he, heTree⟩ := expr_derives hdict
    obtain ⟨b, hb, hbTree⟩ := block_derives hbody
    refine ⟨.forEach x e b, ?_, ?_⟩
    · simp only [Statement.words, Spells.cons_iff, Spells.append_iff]
      exact ⟨p, t, hst, q₁, _, ht, q₂, _, rfl, q₃, _, rfl, q₄, t₁, rfl, _, he, q₅, t₂, rfl, hb⟩
    · rw [Statement.tree, heTree, hbTree, hc]
      rfl
termination_by (s.length, 0)

theorem block_derives {s r : TokenStream} {b : Block Pos} (h : (block s).Gives b r) :
    ∃ d : Braces, Spells d.words s r ∧ d.tree = b.map blank := by
  obtain ⟨p, t, body, q, hst, hbody, hb⟩ := block_gives_iff.1 h
  have hlen : s.length = t.length + 1 := by rw [hst]; rfl
  obtain ⟨d, hd, hdTree⟩ := seq_derives hbody
  refine ⟨.mk d, ?_, ?_⟩
  · simp only [Braces.words, Spells.cons_iff, Spells.append_iff, Spells.nil_iff]
    exact ⟨p, t, hst, _, hd, q, r, rfl, rfl⟩
  · rw [Braces.tree, hdTree, hb]
    rfl
termination_by (s.length, 0)

end

end Parser

end PairDict
