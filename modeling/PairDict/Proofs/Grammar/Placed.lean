import PairDict.Proofs.Grammar.Derivation
import PairDict.Proofs.Grammar.Reading
import PairDict.Proofs.Tree.Built

/-! # Trees stand where their lexemes do

The positions in a tree that was read are positions of the stream: of lexemes, and of the
end of the stream where a sequence ends there.  Nodes copy positions from their left
operands and parentheses leave none, but no position is made up.

`TokenStream.Placed P` says that `P` holds of every position of a stream.  A reader that is
given such a stream builds a tree from such positions, and leaves such a stream
(`Parser.seq_built`).
-/
namespace PairDict

variable {P : Pos → Prop}

namespace TokenStream

/-- Every position of the stream satisfies `P`. -/
def Placed (P : Pos → Prop) : TokenStream → Prop
  | .eof p => P p
  | .failed e => P e.pos
  | .cons l t => P l.pos ∧ t.Placed P

variable {s : TokenStream}

theorem Placed.front (h : s.Placed P) : P s.pos := by
  cases s with
  | eof p | failed e => exact h
  | cons l t => exact h.1

/-- What holds wherever a reader can come to holds of every position. -/
theorem placed_of_spells (h : ∀ ws u, Spells ws s u → P u.pos) : s.Placed P := by
  induction s with
  | eof p | failed e => exact h [] _ rfl
  | cons l t ih =>
    exact ⟨h [] _ rfl, ih fun ws u hu => h (l.word :: ws) u ⟨l.pos, t, rfl, hu⟩⟩

end TokenStream

namespace Parser

open TokenStream

theorem mem_operators {op : Token} (h : 0 < op.precedence) (hne : op ≠ .symbol .comma) :
    op ∈ Token.operators := by
  cases op with
  | symbol y =>
    cases y with
    | comma => exact absurd rfl hne
    | andAnd | eql | plus | star => decide
    | _ => exact absurd h (Nat.lt_irrefl 0)
  | _ => exact absurd h (Nat.lt_irrefl 0)

theorem token_mem_prefixes {w : Word} (h : isUnary w = true) : w.token ∈ Token.prefixes := by
  cases w with
  | symbol y =>
    cases y with
    | minus | bang => decide
    | _ => cases h
  | keyword k =>
    cases k with
    | fst | snd => decide
    | _ => cases h
  | _ => cases h

theorem combine_built {op : Token} {x y : Expr Pos} (hop : 0 < op.precedence) (hx : x.Built P)
    (hy : y.Built P) : (combine op x y).Built P := by
  unfold combine
  split
  · exact .pair hx.ann hx hy
  · next hne => exact .binary hx.ann (mem_operators hop hne) hx hy

/-! ## Expressions -/

mutual

theorem binary_built {level : Nat} {s r : TokenStream} {y : Expr Pos} (hs : s.Placed P)
    (h : (binary level s).Gives y r) : y.Built P ∧ r.Placed P := by
  obtain ⟨x, t, hx, hy⟩ := binary_gives_iff.1 h
  have hlen : t.length < s.length := hx.lt
  obtain ⟨hx, ht⟩ := unary_built hs hx
  exact binaryTail_built hx ht hy
termination_by (s.length, 3)

theorem binaryTail_built {level : Nat} {s r : TokenStream} {x y : Expr Pos} (hx : x.Built P)
    (hs : s.Placed P) (h : (binaryTail level x s).Gives y r) : y.Built P ∧ r.Placed P := by
  by_cases hle : s.token.precedence ≤ level
  · obtain ⟨rfl, rfl⟩ := (binaryTail_of_le hle).1 h
    exact ⟨hx, hs⟩
  · obtain ⟨l, t, hst⟩ : ∃ l t, s = .cons l t := by
      cases s with
      | eof p | failed e => exact absurd (Nat.zero_le level) hle
      | cons l t => exact ⟨l, t, rfl⟩
    have hlen : s.length = t.length + 1 := by rw [hst]; rfl
    rw [hst] at hs hle h
    obtain ⟨z, t', hz, hy⟩ := (binaryTail_of_lt (Nat.lt_of_not_le hle)).1 h
    have hlen' : t'.length < t.length := hz.lt
    obtain ⟨hz, ht'⟩ := binary_built hs.2 hz
    have hop := Nat.lt_of_le_of_lt (Nat.zero_le level) (Nat.lt_of_not_le hle)
    exact binaryTail_built (combine_built hop hx hz) ht' hy
termination_by (s.length, 0)

theorem unary_built {s r : TokenStream} {y : Expr Pos} (hs : s.Placed P)
    (h : (unary s).Gives y r) : y.Built P ∧ r.Placed P := by
  by_cases hop : ∃ l t, s = .cons l t ∧ isUnary l.word = true
  · obtain ⟨l, t, hst, hop⟩ := hop
    have hlen : s.length = t.length + 1 := by rw [hst]; rfl
    rw [hst] at hs
    rw [hst, unary_of_isUnary hop] at h
    obtain ⟨x, hx, rfl⟩ := h
    obtain ⟨hx, hr⟩ := postfixed_built hs.2 hx
    exact ⟨.unary hs.1 (token_mem_prefixes hop) hx, hr⟩
  · have hno : ∀ l t, s = .cons l t → isUnary l.word = false := fun l t hst =>
      Bool.eq_false_iff.2 fun hl => hop ⟨l, t, hst, hl⟩
    exact postfixed_built hs ((unary_of_not_isUnary hno).1 h)
termination_by (s.length, 2)

theorem postfixed_built {s r : TokenStream} {y : Expr Pos} (hs : s.Placed P)
    (h : (postfixed s).Gives y r) : y.Built P ∧ r.Placed P := by
  obtain ⟨x, t, hx, hy⟩ := postfixed_gives_iff.1 h
  have hlen : t.length < s.length := hx.lt
  obtain ⟨hx, ht⟩ := operand_built hs hx
  exact brackets_built hx ht hy
termination_by (s.length, 1)

theorem brackets_built {s r : TokenStream} {x y : Expr Pos} (hx : x.Built P) (hs : s.Placed P)
    (h : (brackets x s).Gives y r) : y.Built P ∧ r.Placed P := by
  by_cases hfront : s.token = .symbol .lbrack
  · obtain ⟨p, t, hst⟩ := token_eq_symbol_iff.1 hfront
    have hlen : s.length = t.length + 1 := by rw [hst]; rfl
    rw [hst] at hs
    rw [hst, brackets_of_lbrack] at h
    obtain ⟨key, t₁, z, t₂, hkey, hafter, hy⟩ := h
    have hlen₁ : t₁.length < t.length := hkey.lt
    have hlen₂ : t₂.length < t₁.length := hafter.lt
    obtain ⟨hkey, ht₁⟩ := binary_built hs.2 hkey
    obtain ⟨hz, ht₂⟩ := afterKey_built hx hkey ht₁ hafter
    exact brackets_built hz ht₂ hy
  · obtain ⟨rfl, rfl⟩ := (brackets_of_ne hfront).1 h
    exact ⟨hx, hs⟩
termination_by (s.length, 0)

theorem afterKey_built {x key y : Expr Pos} {s r : TokenStream} (hx : x.Built P)
    (hkey : key.Built P) (hs : s.Placed P) (h : AfterKey x key s y r) :
    y.Built P ∧ r.Placed P := by
  match s, h with
  | _, .get => exact ⟨.get hx.ann hx hkey, hs.2⟩
  | _, .delete => exact ⟨.delete hx.ann hx hkey, hs.2.2⟩
  | .cons _ t, .update _ hvalue =>
    obtain ⟨hvalue, hr⟩ := binary_built hs.2 hvalue
    exact ⟨.update hx.ann hx hkey hvalue, hr.2⟩
termination_by (s.length, 0)

theorem operand_built {s r : TokenStream} {y : Expr Pos} (hs : s.Placed P)
    (h : (operand s).Gives y r) : y.Built P ∧ r.Placed P := by
  rcases operand_front h with ⟨p, t, hst⟩ | ⟨b, p, t, hst⟩ | ⟨n, p, t, hst⟩ | ⟨x, p, t, hst⟩ |
    ⟨p, t, hst⟩
  · have hlen : s.length = t.length + 1 := by rw [hst]; rfl
    rw [hst] at hs
    rw [hst, operand_of_lbrack] at h
    obtain ⟨key, q, t₁, value, q', hkey, hvalue, rfl⟩ := h
    have hlen₁ : t₁.length + 1 < t.length := hkey.lt
    obtain ⟨hkey, ht₁⟩ := binary_built hs.2 hkey
    obtain ⟨hvalue, hr⟩ := binary_built ht₁.2 hvalue
    exact ⟨.entry hs.1 hkey hvalue, hr.2⟩
  · rw [hst] at hs
    rw [hst, operand_of_bool] at h
    obtain ⟨rfl, rfl⟩ := h
    exact ⟨.bool hs.1, hs.2⟩
  · rw [hst] at hs
    rw [hst, operand_of_num] at h
    obtain ⟨rfl, rfl⟩ := h
    exact ⟨.int hs.1, hs.2⟩
  · rw [hst] at hs
    rw [hst, operand_of_name] at h
    obtain ⟨rfl, rfl⟩ := h
    exact ⟨.name hs.1, hs.2⟩
  · have hlen : s.length = t.length + 1 := by rw [hst]; rfl
    rw [hst] at hs
    rw [hst, operand_of_lparen] at h
    obtain ⟨q, hy⟩ := h
    obtain ⟨hy, hr⟩ := binary_built hs.2 hy
    exact ⟨hy, hr.2⟩
termination_by (s.length, 0)

end

theorem expr_built {s r : TokenStream} {y : Expr Pos} (hs : s.Placed P)
    (h : (expr s).Gives y r) : y.Built P ∧ r.Placed P :=
  binary_built hs h

theorem parenthesized_built {s r : TokenStream} {y : Expr Pos} (hs : s.Placed P)
    (h : (parenthesized s).Gives y r) : y.Built P ∧ r.Placed P := by
  obtain ⟨p, t, q, rfl, hy⟩ := parenthesized_gives_iff.1 h
  obtain ⟨hy, hr⟩ := expr_built hs.2 hy
  exact ⟨hy, hr.2⟩

/-! ## Statements -/

mutual

theorem seq_built {s r : TokenStream} {body : Seq Pos} (hs : s.Placed P)
    (h : (seq s).Gives body r) : body.Built P ∧ r.Placed P := by
  obtain ⟨first, t, hgives, hafter⟩ := seq_gives_iff.1 h
  -- each reader consumes tokens, so the tokens that are left bound the recursion
  have hlen : t.length < s.length := hgives.lt
  obtain ⟨hfirst, ht⟩ := stmt_built hs hgives
  rcases hafter with ⟨-, rfl, rfl⟩ | ⟨p, t', htt', ⟨-, rfl, rfl⟩ | ⟨-, rest, hrest, rfl⟩⟩
  · exact ⟨.cons hs.front hfirst (.empty ht.front), ht⟩
  · rw [htt'] at ht
    exact ⟨.cons hs.front hfirst (.empty ht.2.front), ht.2⟩
  · have hlen' : t.length = t'.length + 1 := by rw [htt']; rfl
    rw [htt'] at ht
    obtain ⟨hrest, hr⟩ := seq_built ht.2 hrest
    exact ⟨.cons hs.front hfirst hrest, hr⟩
termination_by (s.length, 1)

theorem stmt_built {s r : TokenStream} {c : Stmt Pos} (hs : s.Placed P)
    (h : (stmt s).Gives c r) : c.Built P ∧ r.Placed P := by
  rcases stmt_front h with ⟨p, t, hst⟩ | ⟨x, p, t, hst⟩ | ⟨p, t, hst⟩ | ⟨p, t, hst⟩ | ⟨p, t, hst⟩
  · rw [hst] at hs
    rw [hst, stmt_of_var] at h
    obtain ⟨x, q, q', t', value, rfl, hvalue, rfl⟩ := h
    obtain ⟨hvalue, hr⟩ := expr_built hs.2.2.2 hvalue
    exact ⟨.var hs.1 hs.2.1 hvalue, hr⟩
  · rw [hst] at hs
    rw [hst, stmt_of_name] at h
    obtain ⟨q, t', value, rfl, hvalue, rfl⟩ := h
    obtain ⟨hvalue, hr⟩ := expr_built hs.2.2 hvalue
    exact ⟨.assign hs.1 hs.1 hvalue, hr⟩
  · rw [hst] at hs
    rw [hst, stmt_of_print] at h
    obtain ⟨x, hx, rfl⟩ := h
    obtain ⟨hx, hr⟩ := expr_built hs.2 hx
    exact ⟨.print hs.1 hx, hr⟩
  · have hlen : s.length = t.length + 1 := by rw [hst]; rfl
    rw [hst] at hs
    rw [hst, stmt_of_if] at h
    obtain ⟨cond, t₁, yes, t₂, hgives, hgives', hafter⟩ := h
    have hlen₁ : t₁.length < t.length := hgives.lt
    have hlen₂ : t₂.length < t₁.length := hgives'.lt
    obtain ⟨hcond, ht₁⟩ := parenthesized_built hs.2 hgives
    obtain ⟨hyes, ht₂⟩ := block_built ht₁ hgives'
    rcases hafter with ⟨-, rfl, rfl⟩ | ⟨q, t₃, no, htt, hno, rfl⟩
    · exact ⟨.ifThen hs.1 hcond hyes, ht₂⟩
    · have hlen₃ : t₂.length = t₃.length + 1 := by rw [htt]; rfl
      rw [htt] at ht₂
      obtain ⟨hno, hr⟩ := block_built ht₂.2 hno
      exact ⟨.ifElse hs.1 hcond hyes hno, hr⟩
  · have hlen : s.length = t.length + 1 := by rw [hst]; rfl
    rw [hst] at hs
    rw [hst, stmt_of_for] at h
    obtain ⟨x, q₁, q₂, q₃, q₄, t₁, dict, q₅, t₂, body, htt, hdict, hbody, rfl⟩ := h
    have hlen₁ : t.length = t₁.length + 1 + 1 + 1 + 1 := by rw [htt]; rfl
    have hlen₂ : t₂.length + 1 < t₁.length := hdict.lt
    rw [htt] at hs
    obtain ⟨hpos, -, -, hx, -, ht₁⟩ := hs
    obtain ⟨hdict, ht₂⟩ := expr_built ht₁ hdict
    obtain ⟨hbody, hr⟩ := block_built ht₂.2 hbody
    exact ⟨.forEach hpos hx hdict hbody, hr⟩
termination_by (s.length, 0)

theorem block_built {s r : TokenStream} {b : Block Pos} (hs : s.Placed P)
    (h : (block s).Gives b r) : b.Built P ∧ r.Placed P := by
  obtain ⟨p, t, body, q, hst, hbody, rfl⟩ := block_gives_iff.1 h
  have hlen : s.length = t.length + 1 := by rw [hst]; rfl
  rw [hst] at hs
  obtain ⟨hbody, hr⟩ := seq_built hs.2 hbody
  exact ⟨.mk hs.1 hbody hr.1, hr.2⟩
termination_by (s.length, 0)

end

end Parser

/-- **A program is built from the positions of its stream.** -/
theorem TokenStream.program_built {s : TokenStream} {p : Program Pos} (hs : s.Placed P)
    (h : s.program = .ok p) : p.Built P := by
  obtain ⟨body, q, hbody, rfl⟩ := program_eq_ok_iff.1 h
  exact ⟨hs.front, (Parser.seq_built hs hbody).1⟩

end PairDict
