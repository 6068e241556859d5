import PairDict.Proofs.Grammar.CorrectPrefix
import PairDict.Proofs.Grammar.Printed

/-! # What is parsed is parseable

The tree of a derivation uses what the grammar has, and its names and numbers are words of the
derivation.  So it is parseable if these words can be spelled (`Sequence.parseable`), as the
words of a source can.  Whether a tree is parseable does not depend on its annotations, so the
program that is read from a source is parseable too (`Pipeline.parseable_of_parse`).
-/
namespace PairDict

variable {α β : Type}

/-! ## Annotations -/

theorem Expr.parseable_map (f : α → β) (e : Expr α) : (e.map f).Parseable ↔ e.Parseable := by
  induction e with
  | name | int | bool => exact Iff.rfl
  | pair a x y ihx ihy | entry a x y ihx ihy => rw [map, Parseable, Parseable, ihx, ihy]
  | unary a op x ih => rw [map, Parseable, Parseable, ih]
  | binary a op x y ihx ihy | select a op x y ihx ihy => rw [map, Parseable, Parseable, ihx, ihy]
  | store a op d k v ihd ihk ihv => rw [map, Parseable, Parseable, ihd, ihk, ihv]

theorem Seq.stmts_map (f : α → β) (s : Seq α) : (s.map f).stmts = s.stmts.map (Stmt.map f) := by
  cases s with
  | empty => rfl
  | cons a s rest => exact congrArg (s.map f :: ·) (stmts_map f rest)

mutual

theorem Stmt.parseable_map (f : α → β) : ∀ s : Stmt α, (s.map f).Parseable ↔ s.Parseable
  | .var a x e | .assign a x e => by
    rw [Stmt.map, Stmt.Parseable, Stmt.Parseable, Expr.parseable_map, Ident.map]
  | .print a e => by rw [Stmt.map, Stmt.Parseable, Stmt.Parseable, Expr.parseable_map]
  | .ifThen a c t => by
    rw [Stmt.map, Stmt.Parseable, Stmt.Parseable, Expr.parseable_map, Block.parseable_map f t]
  | .ifElse a c t e => by
    rw [Stmt.map, Stmt.Parseable, Stmt.Parseable, Expr.parseable_map, Block.parseable_map f t,
      Block.parseable_map f e]
  | .forEach a x d b => by
    rw [Stmt.map, Stmt.Parseable, Stmt.Parseable, Expr.parseable_map, Block.parseable_map f b,
      Ident.map]
  | .block b => Iff.rfl

theorem Block.parseable_map (f : α → β) : ∀ b : Block α, (b.map f).Parseable ↔ b.Parseable
  | .mk a s close => by
    rw [Block.map, Block.Parseable, Block.Parseable, Seq.parseable_map f s, Seq.stmts_map, ne_eq,
      List.map_eq_nil_iff]

theorem Seq.parseable_map (f : α → β) : ∀ s : Seq α, (s.map f).Parseable ↔ s.Parseable
  | .empty a => Iff.rfl
  | .cons a s rest => by
    rw [Seq.map, Seq.Parseable, Seq.Parseable, Stmt.parseable_map f s, Seq.parseable_map f rest]

end

theorem Program.parseable_map (f : α → β) (p : Program α) :
    (p.map f).Parseable ↔ p.Parseable := by
  rw [Parseable, Parseable, map, Seq.parseable_map, Seq.stmts_map, ne_eq, List.map_eq_nil_iff]

/-! ## Derivations -/

namespace Grammar

/-- The node of an operator on a level is parseable if its operands are. -/
theorem join_parseable {n : Nat} {op : Symbol} (hop : operators[n]? = some op) {x y : Expr Unit}
    (hx : x.Parseable) (hy : y.Parseable) : (join op x y).Parseable := by
  have hmem : op ∈ operators := List.mem_of_getElem? hop
  by_cases hcomma : op = .comma
  · subst hcomma
    exact ⟨hx, hy⟩
  · have htree : join op x y = .binary () (.symbol op) x y := by
      cases op with
      | comma => exact absurd rfl hcomma
      | _ => rfl
    rw [htree]
    refine ⟨?_, hx, hy⟩
    have hall : ∀ op ∈ operators, op ≠ .comma →
        Token.symbol op ∈ [Token.symbol .plus, .symbol .star, .symbol .eql, .symbol .andAnd] := by
      decide
    exact hall op hmem hcomma

mutual

theorem Level.parseable : ∀ {n : Nat} (d : Level n), (∀ w ∈ d.words, w.Spellable) →
    d.tree.Parseable
  | _, .prefixed x, h => x.parseable h
  | _, .tighter x, h => x.parseable h
  | _, .binary hop x y, h => by
    rw [Level.words, List.forall_mem_append, List.forall_mem_cons] at h
    exact join_parseable hop (x.parseable h.1) (y.parseable h.2.2)

theorem Prefixed.parseable : ∀ d : Prefixed, (∀ w ∈ d.words, w.Spellable) → d.tree.Parseable
  | .bare x, h => x.parseable h
  | .applied op hop x, h => by
    rw [Prefixed.words, List.forall_mem_cons] at h
    exact ⟨⟨op, hop, rfl⟩, x.parseable h.2⟩

theorem Postfixed.parseable : ∀ d : Postfixed, (∀ w ∈ d.words, w.Spellable) → d.tree.Parseable
  | .mk base suffixes, h => by
    rw [Postfixed.words, List.forall_mem_append] at h
    exact suffixes.parseable (base.parseable h.1) h.2

theorem Suffixes.parseable : ∀ (d : Suffixes) {x : Expr Unit}, x.Parseable →
    (∀ w ∈ d.words, w.Spellable) → (d.tree x).Parseable
  | .nil, _, hx, _ => hx
  | .cons k slot rest, _, hx, h => by
    rw [Suffixes.words, List.forall_mem_cons, List.forall_mem_append, List.forall_mem_append,
      List.forall_mem_cons] at h
    obtain ⟨-, hk, hslot, -, hrest⟩ := h
    exact rest.parseable (slot.parseable hx (k.parseable hk) hslot) hrest

theorem Slot.parseable : ∀ (d : Slot) {x k : Expr Unit}, x.Parseable → k.Parseable →
    (∀ w ∈ d.words, w.Spellable) → (d.tree x k).Parseable
  | .get, _, _, hx, hk, _ => ⟨.inl rfl, hx, hk⟩
  | .delete, _, _, hx, hk, _ => ⟨.inr rfl, hx, hk⟩
  | .update v, _, _, hx, hk, h => by
    rw [Slot.words, List.forall_mem_cons] at h
    exact ⟨rfl, hx, hk, v.parseable h.2⟩

theorem Atom.parseable : ∀ d : Atom, (∀ w ∈ d.words, w.Spellable) → d.tree.Parseable
  | .entry k v, h => by
    rw [Atom.words, List.forall_mem_cons, List.forall_mem_append, List.forall_mem_cons,
      List.forall_mem_append] at h
    exact ⟨k.parseable h.2.1, v.parseable h.2.2.2.1⟩
  | .bool b, _ => trivial
  | .num n, h => h _ List.mem_cons_self
  | .name x, h => h _ List.mem_cons_self
  | .paren x, h => by
    rw [Atom.words, List.forall_mem_cons, List.forall_mem_append] at h
    exact x.parseable h.2.1

end

mutual

theorem Statement.parseable : ∀ d : Statement, (∀ w ∈ d.words, w.Spellable) → d.tree.Parseable
  | .var x e, h => by
    rw [Statement.words, List.forall_mem_cons, List.forall_mem_cons, List.forall_mem_cons] at h
    exact ⟨h.2.1, e.parseable h.2.2.2⟩
  | .assign x e, h => by
    rw [Statement.words, List.forall_mem_cons, List.forall_mem_cons] at h
    exact ⟨h.1, e.parseable h.2.2⟩
  | .print e, h => by
    rw [Statement.words, List.forall_mem_cons] at h
    exact e.parseable h.2
  | .ifThen c b, h => by
    rw [Statement.words, List.forall_mem_cons, List.forall_mem_cons, List.forall_mem_append,
      List.forall_mem_cons] at h
    obtain ⟨-, -, hc, -, hb⟩ := h
    exact ⟨c.parseable hc, b.parseable hb⟩
  | .ifElse c b b', h => by
    rw [Statement.words, List.forall_mem_cons, List.forall_mem_cons, List.forall_mem_append,
      List.forall_mem_cons, List.forall_mem_append, List.forall_mem_cons] at h
    obtain ⟨-, -, hc, -, hb, -, hb'⟩ := h
    exact ⟨c.parseable hc, b.parseable hb, b'.parseable hb'⟩
  | .forEach x d b, h => by
    simp only [Statement.words, List.forall_mem_cons, List.forall_mem_append] at h
    obtain ⟨-, -, -, hx, -, hd, -, hb⟩ := h
    exact ⟨hx, d.parseable hd, b.parseable hb⟩

theorem Braces.parseable : ∀ d : Braces, (∀ w ∈ d.words, w.Spellable) → d.tree.Parseable
  | .mk body, h => by
    rw [Braces.words, List.forall_mem_cons, List.forall_mem_append] at h
    exact body.parseable h.2.1

/-- **The tree of words that can be spelled is parseable**, and not empty. -/
theorem Sequence.parseable : ∀ d : Sequence, (∀ w ∈ d.words, w.Spellable) →
    d.tree.stmts ≠ [] ∧ d.tree.Parseable
  | .last s, h => ⟨List.cons_ne_nil _ _, s.parseable h, trivial⟩
  | .trailing s, h => by
    rw [Sequence.words, List.forall_mem_append] at h
    exact ⟨List.cons_ne_nil _ _, s.parseable h.1, trivial⟩
  | .more s rest, h => by
    rw [Sequence.words, List.forall_mem_append, List.forall_mem_cons] at h
    exact ⟨List.cons_ne_nil _ _, s.parseable h.1, (rest.parseable h.2.2).2⟩

end

end Grammar

/-! ## Programs -/

/-- **A program that is read from a source is parseable.** -/
theorem Pipeline.parseable_of_parse {src : Source} {p : Program Pos} (h : parse src = .ok p) :
    p.Parseable := by
  unfold parse at h
  cases hprogram : src.tokens.program with
  | error e =>
    rw [hprogram] at h
    cases h
  | ok p' =>
    rw [hprogram] at h
    cases h
    obtain ⟨body, q, hread, hp⟩ := TokenStream.program_eq_ok_iff.1 hprogram
    obtain ⟨d, hd, htree⟩ := Parser.seq_derives hread
    have hparseable := d.parseable (spellable_of_spells hd)
    rw [htree] at hparseable
    have hshape : (p.map fun _ => ()).Parseable := by
      rw [hp]
      exact hparseable
    exact (Program.parseable_map _ p).1 hshape

end PairDict
