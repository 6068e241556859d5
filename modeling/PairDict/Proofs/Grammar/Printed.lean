import PairDict.Proofs.Grammar.Recognized
import PairDict.Proofs.Lexeme.Layout
import PairDict.Pipeline

/-! # Trees and the words that they are parsed from

A tree is printed with as few parentheses as the grammar allows.  Every expression has a
**precedence**, that of its operator, where an operator before an operand binds tighter than
those between operands, and all that is not built by an operator binds tightest.  A part of
an expression stands in parentheses only if its precedence is too low for its place
(`Expr.within`):

* a left operand, if it binds less tightly than the operator;
* a right operand, if it binds no tighter than the operator;
* the operand of an operator before it, and the base of a bracket, if either is built by an
  operator.

A tree is **parseable** if it uses what the grammar has: its operators and dictionary forms,
names and numbers that can be spelled, blocks only as bodies, and no empty block.  The words
of such a tree have a derivation with this tree (`Seq.printed`), so parsing gives it
back, from whatever layout the words have (`Program.parse_printed`).
-/
namespace PairDict

variable {α : Type}

/-! ## Printing -/

namespace Expr

/-- How tightly an expression binds. -/
def precedence : Expr α → Nat
  | .pair _ _ _ => (Token.symbol .comma).precedence
  | .binary _ op _ _ => op.precedence
  | .unary _ _ _ => 6
  | _ => 7

/-- The words of an operator. -/
def operatorWords : Token → List Word
  | .symbol y => [.symbol y]
  | .keyword k => [.keyword k]
  | _ => []

/-- The words of an expression of the given precedence where the precedence `least` is
needed. -/
def within (least precedence : Nat) (ws : List Word) : List Word :=
  if precedence < least then .symbol .lparen :: (ws ++ [.symbol .rparen]) else ws

/-- The words of an expression. -/
def words : Expr α → List Word
  | .name _ x => [.name x]
  | .int _ n => [.num n]
  | .bool _ b => [.bool b]
  | .pair _ x y =>
    within 1 x.precedence x.words ++ .symbol .comma :: within 2 y.precedence y.words
  | .unary _ op x => operatorWords op ++ within 7 x.precedence x.words
  | .binary _ op x y =>
    within op.precedence x.precedence x.words ++
      (operatorWords op ++ within (op.precedence + 1) y.precedence y.words)
  | .entry _ k v =>
    .symbol .lbrack :: (k.words ++ .symbol .colon :: (v.words ++ [.symbol .rbrack]))
  | .select _ .delete d k =>
    within 7 d.precedence d.words ++
      .symbol .lbrack :: (k.words ++ [.symbol .colon, .symbol .rbrack])
  | .select _ _ d k =>
    within 7 d.precedence d.words ++ .symbol .lbrack :: (k.words ++ [.symbol .rbrack])
  | .store _ _ d k v =>
    within 7 d.precedence d.words ++
      .symbol .lbrack :: (k.words ++ .symbol .colon :: (v.words ++ [.symbol .rbrack]))

/-- The expression is built as the parser builds it. -/
def Parseable : Expr α → Prop
  | .name _ x => (Word.name x).Spellable
  | .int _ n => (Word.num n).Spellable
  | .bool _ _ => True
  | .pair _ x y => x.Parseable ∧ y.Parseable
  | .unary _ op x => (∃ w ∈ Grammar.prefixes, w.token = op) ∧ x.Parseable
  | .binary _ op x y =>
    op ∈ [.symbol .plus, .symbol .star, .symbol .eql, .symbol .andAnd] ∧ x.Parseable ∧ y.Parseable
  | .entry _ k v => k.Parseable ∧ v.Parseable
  | .select _ op d k => (op = .get ∨ op = .delete) ∧ d.Parseable ∧ k.Parseable
  | .store _ op d k v => op = .update ∧ d.Parseable ∧ k.Parseable ∧ v.Parseable

end Expr

mutual

/-- The words of a statement. -/
def Stmt.words : Stmt α → List Word
  | .var _ x e => .keyword .varKw :: .name x.name :: .symbol .assign :: e.words
  | .assign _ x e => .name x.name :: .symbol .assign :: e.words
  | .print _ e => .keyword .printKw :: e.words
  | .ifThen _ c b =>
    .keyword .ifKw :: .symbol .lparen :: (c.words ++ .symbol .rparen :: b.words)
  | .ifElse _ c b b' =>
    .keyword .ifKw :: .symbol .lparen ::
      (c.words ++ .symbol .rparen :: (b.words ++ .keyword .elseKw :: b'.words))
  | .forEach _ x d b =>
    .keyword .forKw :: .symbol .lparen :: .keyword .varKw :: .name x.name :: .keyword .ofKw ::
      (d.words ++ .symbol .rparen :: b.words)
  | .block b => b.words

/-- The words of a block. -/
def Block.words : Block α → List Word
  | .mk _ s _ => .symbol .lbrace :: (s.words ++ [.symbol .rbrace])

/-- The words of a sequence, with a separator between any two statements. -/
def Seq.words : Seq α → List Word
  | .empty _ => []
  | .cons _ s (.empty _) => s.words
  | .cons _ s (.cons a s' rest) => s.words ++ .symbol .semi :: Seq.words (.cons a s' rest)

end

mutual

/-- The statement is built as the parser builds it. -/
def Stmt.Parseable : Stmt α → Prop
  | .var _ x e | .assign _ x e => (Word.name x.name).Spellable ∧ e.Parseable
  | .print _ e => e.Parseable
  | .ifThen _ c b => c.Parseable ∧ b.Parseable
  | .ifElse _ c b b' => c.Parseable ∧ b.Parseable ∧ b'.Parseable
  | .forEach _ x d b => (Word.name x.name).Spellable ∧ d.Parseable ∧ b.Parseable
  | .block _ => False

/-- The block is not empty, and its statements are built as the parser builds them. -/
def Block.Parseable : Block α → Prop
  | .mk _ s _ => s.stmts ≠ [] ∧ s.Parseable

/-- The statements are built as the parser builds them. -/
def Seq.Parseable : Seq α → Prop
  | .empty _ => True
  | .cons _ s rest => s.Parseable ∧ rest.Parseable

end

namespace Program

/-- The words of a program. -/
def words (p : Program α) : List Word := p.body.words

/-- The text of a program, with a blank after each word. -/
def text (p : Program α) : List UInt8 := Scan.spread p.words

/-- The program is not empty, and its statements are built as the parser builds them. -/
def Parseable (p : Program α) : Prop := p.body.stmts ≠ [] ∧ p.body.Parseable

end Program

/-! ## Derivations of what is printed -/

namespace Grammar

/-- The words stand for the expression where the precedence `least` is needed: on the level
of an operator of that precedence, or as the base of a bracket. -/
inductive Stands : Nat → List Word → Expr Unit → Prop where
  | level {n} (d : Level n) : Stands (n + 1) d.words d.tree
  | base (d : Postfixed) : Stands 7 d.words d.tree

/-- An atom is a base without brackets. -/
theorem Stands.atom (d : Atom) : Stands 7 d.words d.tree := by
  have hbase := Stands.base (.mk d .nil)
  rwa [Postfixed.words, Suffixes.words, List.append_nil] at hbase

namespace Stands

variable {k least n : Nat} {ws : List Word} {e : Expr Unit}

theorem exists_level (h : Stands (n + 1) ws e) (hn : n ≤ 5) :
    ∃ d : Level n, d.words = ws ∧ d.tree = e := by
  generalize hk : n + 1 = k at h
  cases h with
  | level d =>
    cases hk
    exact ⟨d, rfl, rfl⟩
  | base d => omega

theorem exists_base (h : Stands 7 ws e) : ∃ d : Postfixed, d.words = ws ∧ d.tree = e := by
  generalize hk : 7 = k at h
  cases h with
  | level d =>
    have hfive := d.le_five
    omega
  | base d => exact ⟨d, rfl, rfl⟩

/-- What stands where a precedence is needed stands where a lower one is. -/
theorem loosen (h : Stands k ws e) (hpos : 1 ≤ least) (hle : least ≤ k) : Stands least ws e := by
  obtain ⟨m, rfl⟩ := Nat.exists_eq_add_of_le' hpos
  cases h with
  | level d =>
    obtain ⟨e, hwords, htree⟩ := d.loosen (Nat.le_of_succ_le_succ hle)
    exact hwords ▸ htree ▸ .level e
  | base d =>
    by_cases hm : m = 6
    · subst hm
      exact .base d
    · have hfive : m ≤ 5 := by omega
      obtain ⟨e, hwords, htree⟩ := (Level.prefixed (.bare d)).loosen hfive
      have hlevel := Stands.level e
      rwa [hwords, htree] at hlevel

/-- With parentheses where they are needed, words stand anywhere. -/
theorem within (h : Stands k ws e) (hk : 1 ≤ k) (hpos : 1 ≤ least) (hseven : least ≤ 7) :
    Stands least (Expr.within least k ws) e := by
  unfold Expr.within
  split
  · obtain ⟨d, rfl, rfl⟩ := (h.loosen (Nat.le_refl 1) hk).exists_level (Nat.zero_le 5)
    exact (Stands.atom (.paren d)).loosen hpos hseven
  · next hle => exact h.loosen hpos (Nat.le_of_not_lt hle)

end Stands

/-- Two operands and the operator between them. -/
theorem Stands.join {n : Nat} {op : Symbol} (hop : operators[n]? = some op) {ws ws' : List Word}
    {e e' : Expr Unit} (h : Stands (n + 1) ws e) (h' : Stands (n + 2) ws' e') :
    Stands (n + 1) (ws ++ .symbol op :: ws') (Grammar.join op e e') := by
  have hn : n < 5 := (List.getElem?_eq_some_iff.1 hop).1
  obtain ⟨d, rfl, rfl⟩ := h.exists_level (Nat.le_of_lt hn)
  obtain ⟨d', rfl, rfl⟩ := h'.exists_level hn
  exact .level (.binary hop d d')

/-- One more bracket behind others. -/
theorem Suffixes.snoc (k : Level 0) (slot : Slot) : ∀ d : Suffixes, ∃ e : Suffixes,
    e.words = d.words ++ .symbol .lbrack :: (k.words ++ (slot.words ++ [.symbol .rbrack])) ∧
      ∀ x, e.tree x = slot.tree (d.tree x) k.tree
  | .nil => ⟨.cons k slot .nil, rfl, fun _ => rfl⟩
  | .cons k' slot' rest => by
    obtain ⟨e, hwords, htree⟩ := Suffixes.snoc k slot rest
    refine ⟨.cons k' slot' e, ?_, fun x => htree _⟩
    simp only [Suffixes.words, hwords, List.cons_append, List.append_assoc]

/-- A base with a bracket behind it is a base. -/
theorem Stands.bracket {ws : List Word} {e : Expr Unit} (h : Stands 7 ws e) (k : Level 0)
    (slot : Slot) :
    Stands 7 (ws ++ .symbol .lbrack :: (k.words ++ (slot.words ++ [.symbol .rbrack])))
      (slot.tree e k.tree) := by
  obtain ⟨⟨base, suffixes⟩, rfl, rfl⟩ := h.exists_base
  obtain ⟨suffixes', hwords, htree⟩ := suffixes.snoc k slot
  have hbase : Stands 7 (base.words ++ suffixes'.words) (suffixes'.tree base.tree) :=
    .base (.mk base suffixes')
  rw [hwords, htree, ← List.append_assoc] at hbase
  exact hbase

end Grammar

open Grammar

namespace Expr

theorem one_le_precedence {e : Expr α} (h : e.Parseable) : 1 ≤ e.precedence := by
  cases e with
  | binary a op x y =>
    have hop := h.1
    simp only [List.mem_cons, List.not_mem_nil, or_false] at hop
    rcases hop with rfl | rfl | rfl | rfl <;> exact Nat.le_add_left 1 _
  | _ => exact Nat.le_add_left 1 _

/-- The words of an expression that is parseable on its own. -/
theorem exists_expression {e : Expr α} (h : e.Parseable)
    (hstands : Stands e.precedence e.words (e.map blank)) :
    ∃ d : Expression, d.words = e.words ∧ d.tree = e.map blank :=
  (hstands.loosen (Nat.le_refl 1) (one_le_precedence h)).exists_level (Nat.zero_le 5)

theorem operatorWords_token {w : Word} (h : w ∈ prefixes) : operatorWords w.token = [w] := by
  simp only [prefixes, List.mem_cons, List.not_mem_nil, or_false] at h
  rcases h with rfl | rfl | rfl | rfl <;> rfl

/-- The operators between operands, apart from the comma. -/
theorem operator_of_mem {op : Token}
    (h : op ∈ [.symbol .plus, .symbol .star, .symbol .eql, Token.symbol .andAnd]) :
    ∃ n y, operators[n]? = some y ∧ op = .symbol y ∧ op.precedence = n + 1 ∧
      ∀ e e', join y e e' = .binary () op e e' := by
  simp only [List.mem_cons, List.not_mem_nil, or_false] at h
  rcases h with rfl | rfl | rfl | rfl
  · exact ⟨3, .plus, rfl, rfl, rfl, fun _ _ => rfl⟩
  · exact ⟨4, .star, rfl, rfl, rfl, fun _ _ => rfl⟩
  · exact ⟨2, .eql, rfl, rfl, rfl, fun _ _ => rfl⟩
  · exact ⟨1, .andAnd, rfl, rfl, rfl, fun _ _ => rfl⟩

/-- **The words of a parseable expression stand for it.** -/
theorem stands (e : Expr α) (h : e.Parseable) : Stands e.precedence e.words (e.map blank) := by
  induction e with
  | name a x => exact .atom (.name x)
  | int a n => exact .atom (.num n)
  | bool a b => exact .atom (.bool b)
  | pair a x y ihx ihy =>
    obtain ⟨hx, hy⟩ := h
    have hleft := (ihx hx).within (one_le_precedence hx) (Nat.le_refl 1) (by decide)
    have hright := (ihy hy).within (one_le_precedence hy) (Nat.le_succ 1) (by decide)
    exact .join (show operators[0]? = some .comma from rfl) hleft hright
  | unary a op x ih =>
    obtain ⟨⟨w, hw, rfl⟩, hx⟩ := h
    obtain ⟨d, hd, htree⟩ :=
      ((ih hx).within (one_le_precedence hx) (by decide) (Nat.le_refl 7)).exists_base
    have hlevel := Stands.level (.prefixed (.applied w hw d))
    rw [words, operatorWords_token hw, ← hd, map, ← htree]
    exact hlevel
  | binary a op x y ihx ihy =>
    obtain ⟨hop, hx, hy⟩ := h
    obtain ⟨n, y', hn, rfl, hprec, hjoin⟩ := operator_of_mem hop
    have hfive : n < 5 := (List.getElem?_eq_some_iff.1 hn).1
    have hleft := (ihx hx).within (one_le_precedence hx) (Nat.le_add_left 1 n) (by omega)
    have hright := (ihy hy).within (one_le_precedence hy) (Nat.le_add_left 1 (n + 1)) (by omega)
    rw [words, precedence, map, hprec, ← hjoin]
    exact .join hn hleft hright
  | entry a k v ihk ihv =>
    obtain ⟨hk, hv⟩ := h
    obtain ⟨dk, hdk, hkTree⟩ := exists_expression hk (ihk hk)
    obtain ⟨dv, hdv, hvTree⟩ := exists_expression hv (ihv hv)
    rw [words, map, ← hdk, ← hdv, ← hkTree, ← hvTree]
    exact .atom (.entry dk dv)
  | select a op d k ihd ihk =>
    obtain ⟨hop, hd, hk⟩ := h
    have hbase := (ihd hd).within (one_le_precedence hd) (by decide) (Nat.le_refl 7)
    obtain ⟨dk, hdk, hkTree⟩ := exists_expression hk (ihk hk)
    rw [map, ← hkTree]
    rcases hop with rfl | rfl
    · rw [words, ← hdk]
      · exact hbase.bracket dk .get
      · exact nofun
    · rw [words, ← hdk]
      exact hbase.bracket dk .delete
  | store a op d k v ihd ihk ihv =>
    obtain ⟨rfl, hd, hk, hv⟩ := h
    have hbase := (ihd hd).within (one_le_precedence hd) (by decide) (Nat.le_refl 7)
    obtain ⟨dk, hdk, hkTree⟩ := exists_expression hk (ihk hk)
    obtain ⟨dv, hdv, hvTree⟩ := exists_expression hv (ihv hv)
    rw [words, map, ← hdk, ← hdv, ← hkTree, ← hvTree]
    exact hbase.bracket dk (.update dv)

/-- The words of an expression that stands by itself. -/
theorem printed (e : Expr α) (h : e.Parseable) :
    ∃ d : Expression, d.words = e.words ∧ d.tree = e.map blank :=
  exists_expression h (e.stands h)

end Expr

mutual

theorem Stmt.printed : ∀ c : Stmt α, c.Parseable →
    ∃ d : Statement, d.words = c.words ∧ d.tree = c.map blank
  | .var a x e, ⟨_, he⟩ => by
    obtain ⟨d, hwords, htree⟩ := e.printed he
    refine ⟨.var x.name d, ?_, ?_⟩
    · rw [Statement.words, hwords, Stmt.words]
    · rw [Statement.tree, htree]
      rfl
  | .assign a x e, ⟨_, he⟩ => by
    obtain ⟨d, hwords, htree⟩ := e.printed he
    refine ⟨.assign x.name d, ?_, ?_⟩
    · rw [Statement.words, hwords, Stmt.words]
    · rw [Statement.tree, htree]
      rfl
  | .print a e, he => by
    obtain ⟨d, hwords, htree⟩ := e.printed he
    refine ⟨.print d, ?_, ?_⟩
    · rw [Statement.words, hwords, Stmt.words]
    · rw [Statement.tree, htree]
      rfl
  | .ifThen a c b, ⟨hc, hb⟩ => by
    obtain ⟨d, hwords, htree⟩ := c.printed hc
    obtain ⟨d₁, hwords₁, htree₁⟩ := Block.printed b hb
    refine ⟨.ifThen d d₁, ?_, ?_⟩
    · rw [Statement.words, hwords, hwords₁, Stmt.words]
    · rw [Statement.tree, htree, htree₁]
      rfl
  | .ifElse a c b b', ⟨hc, hb, hb'⟩ => by
    obtain ⟨d, hwords, htree⟩ := c.printed hc
    obtain ⟨d₁, hwords₁, htree₁⟩ := Block.printed b hb
    obtain ⟨d₂, hwords₂, htree₂⟩ := Block.printed b' hb'
    refine ⟨.ifElse d d₁ d₂, ?_, ?_⟩
    · rw [Statement.words, hwords, hwords₁, hwords₂, Stmt.words]
    · rw [Statement.tree, htree, htree₁, htree₂]
      rfl
  | .forEach a x d b, ⟨_, hd, hb⟩ => by
    obtain ⟨e, hwords, htree⟩ := d.printed hd
    obtain ⟨d₁, hwords₁, htree₁⟩ := Block.printed b hb
    refine ⟨.forEach x.name e d₁, ?_, ?_⟩
    · rw [Statement.words, hwords, hwords₁, Stmt.words]
    · rw [Statement.tree, htree, htree₁]
      rfl

theorem Block.printed : ∀ b : Block α, b.Parseable →
    ∃ d : Braces, d.words = b.words ∧ d.tree = b.map blank
  | .mk a s close, ⟨hne, hs⟩ => by
    obtain ⟨d, hwords, htree⟩ := Seq.printed s hne hs
    refine ⟨.mk d, ?_, ?_⟩
    · rw [Braces.words, hwords, Block.words]
    · rw [Braces.tree, htree]
      rfl

/-- **The words of statements have a derivation with their trees.** -/
theorem Seq.printed : ∀ s : Seq α, s.stmts ≠ [] → s.Parseable →
    ∃ d : Sequence, d.words = s.words ∧ d.tree = s.map blank
  | .empty a, hne, _ => absurd rfl hne
  | .cons a c (.empty b), _, ⟨hc, _⟩ => by
    obtain ⟨d, hwords, htree⟩ := Stmt.printed c hc
    refine ⟨.last d, ?_, ?_⟩
    · rw [Sequence.words, hwords, Seq.words]
    · rw [Sequence.tree, htree]
      rfl
  | .cons a c (.cons a' c' rest), _, ⟨hc, hrest⟩ => by
    obtain ⟨d, hwords, htree⟩ := Stmt.printed c hc
    obtain ⟨d', hwords', htree'⟩ := Seq.printed (.cons a' c' rest) (List.cons_ne_nil _ _) hrest
    refine ⟨.more d d', ?_, ?_⟩
    · rw [Sequence.words, hwords, hwords', Seq.words]
    · rw [Sequence.tree, htree, htree']
      rfl

end

/-! ## The words of a parseable tree can be spelled -/

namespace Expr

open List (forall_mem_append forall_mem_cons forall_mem_singleton)

theorem spellable_within {least precedence : Nat} {ws : List Word} (h : ∀ w ∈ ws, w.Spellable) :
    ∀ w ∈ within least precedence ws, w.Spellable := by
  unfold within
  split
  · rw [forall_mem_cons, forall_mem_append, forall_mem_singleton]
    exact ⟨trivial, h, trivial⟩
  · exact h

theorem spellable_operatorWords (op : Token) : ∀ w ∈ operatorWords op, w.Spellable := by
  cases op with
  | symbol y | keyword k => exact forall_mem_singleton.2 trivial
  | _ => exact nofun

theorem spellable (e : Expr α) (h : e.Parseable) : ∀ w ∈ e.words, w.Spellable := by
  induction e with
  | name a x | int a n => exact forall_mem_singleton.2 h
  | bool a b => exact forall_mem_singleton.2 trivial
  | pair a x y ihx ihy =>
    rw [words, forall_mem_append, forall_mem_cons]
    exact ⟨spellable_within (ihx h.1), trivial, spellable_within (ihy h.2)⟩
  | unary a op x ih =>
    rw [words, forall_mem_append]
    exact ⟨spellable_operatorWords op, spellable_within (ih h.2)⟩
  | binary a op x y ihx ihy =>
    rw [words, forall_mem_append, forall_mem_append]
    exact ⟨spellable_within (ihx h.2.1), spellable_operatorWords op, spellable_within (ihy h.2.2)⟩
  | entry a k v ihk ihv =>
    rw [words, forall_mem_cons, forall_mem_append, forall_mem_cons, forall_mem_append,
      forall_mem_singleton]
    exact ⟨trivial, ihk h.1, trivial, ihv h.2, trivial⟩
  | select a op d k ihd ihk =>
    have hd : ∀ w ∈ within 7 d.precedence d.words, w.Spellable := spellable_within (ihd h.2.1)
    rcases h.1 with rfl | rfl
    · rw [words, forall_mem_append, forall_mem_cons, forall_mem_append, forall_mem_singleton]
      · exact ⟨hd, trivial, ihk h.2.2, trivial⟩
      · exact nofun
    · rw [words, forall_mem_append, forall_mem_cons, forall_mem_append, forall_mem_cons,
        forall_mem_singleton]
      exact ⟨hd, trivial, ihk h.2.2, trivial, trivial⟩
  | store a op d k v ihd ihk ihv =>
    rw [words, forall_mem_append, forall_mem_cons, forall_mem_append, forall_mem_cons,
      forall_mem_append, forall_mem_singleton]
    exact ⟨spellable_within (ihd h.2.1), trivial, ihk h.2.2.1, trivial, ihv h.2.2.2, trivial⟩

end Expr

section Statements

open List (forall_mem_append forall_mem_cons forall_mem_singleton)

mutual

theorem Stmt.spellable : ∀ c : Stmt α, c.Parseable → ∀ w ∈ c.words, w.Spellable
  | .var a x e, ⟨hx, he⟩ => by
    rw [Stmt.words, forall_mem_cons, forall_mem_cons, forall_mem_cons]
    exact ⟨trivial, hx, trivial, e.spellable he⟩
  | .assign a x e, ⟨hx, he⟩ => by
    rw [Stmt.words, forall_mem_cons, forall_mem_cons]
    exact ⟨hx, trivial, e.spellable he⟩
  | .print a e, he => by
    rw [Stmt.words, forall_mem_cons]
    exact ⟨trivial, e.spellable he⟩
  | .ifThen a c b, ⟨hc, hb⟩ => by
    rw [Stmt.words, forall_mem_cons, forall_mem_cons, forall_mem_append, forall_mem_cons]
    exact ⟨trivial, trivial, c.spellable hc, trivial, Block.spellable b hb⟩
  | .ifElse a c b b', ⟨hc, hb, hb'⟩ => by
    rw [Stmt.words, forall_mem_cons, forall_mem_cons, forall_mem_append, forall_mem_cons,
      forall_mem_append, forall_mem_cons]
    exact ⟨trivial, trivial, c.spellable hc, trivial, Block.spellable b hb, trivial,
      Block.spellable b' hb'⟩
  | .forEach a x d b, ⟨hx, hd, hb⟩ => by
    rw [Stmt.words, forall_mem_cons, forall_mem_cons, forall_mem_cons, forall_mem_cons,
      forall_mem_cons, forall_mem_append, forall_mem_cons]
    exact ⟨trivial, trivial, trivial, hx, trivial, d.spellable hd, trivial, Block.spellable b hb⟩

theorem Block.spellable : ∀ b : Block α, b.Parseable → ∀ w ∈ b.words, w.Spellable
  | .mk a s close, ⟨_, hs⟩ => by
    rw [Block.words, forall_mem_cons, forall_mem_append, forall_mem_singleton]
    exact ⟨trivial, Seq.spellable s hs, trivial⟩

theorem Seq.spellable : ∀ s : Seq α, s.Parseable → ∀ w ∈ s.words, w.Spellable
  | .empty a, _ => nofun
  | .cons a c (.empty b), ⟨hc, _⟩ => Stmt.spellable c hc
  | .cons a c (.cons a' c' rest), ⟨hc, hrest⟩ => by
    rw [Seq.words, forall_mem_append, forall_mem_cons]
    exact ⟨Stmt.spellable c hc, trivial, Seq.spellable (.cons a' c' rest) hrest⟩

end

end Statements

/-! ## Round trip -/

/-- The tree is parsed from every layout of its words. -/
theorem Program.parse_of_layout {p : Program α} (h : p.Parseable) {bytes : List UInt8}
    (hlayout : Scan.Layout p.words bytes) (name : String) :
    ∃ q, Pipeline.parse ⟨name, bytes, none⟩ = .ok q ∧ q.shape = p.shape := by
  obtain ⟨d, hwords, htree⟩ := p.body.printed h.1 h.2
  obtain ⟨q, hq⟩ := hlayout.spells name
  rw [words, ← hwords] at hq
  obtain ⟨body, hbodyTree, hread⟩ := d.read hq (.inr rfl)
  have hprogram := TokenStream.program_eq_ok_iff.2 ⟨body, q, hread, rfl⟩
  refine ⟨_, by rw [Pipeline.parse, hprogram], ?_⟩
  exact congrArg (Program.mk ()) (hbodyTree.trans htree)

/-- **A parseable tree is parsed from its words**, in the text that the program is printed as
and in every other layout of these words. -/
theorem Program.parse_printed (p : Program α) (h : p.Parseable) :
    Scan.Layout p.words p.text ∧ ∀ name bytes, Scan.Layout p.words bytes →
      ∃ q, Pipeline.parse ⟨name, bytes, none⟩ = .ok q ∧ q.shape = p.shape :=
  ⟨.spread (p.body.spellable h.2), fun name _ hlayout => parse_of_layout h hlayout name⟩

/-- The program `print (1 + 2) * 3`, which needs its parentheses. -/
def printProduct : Program Unit :=
  ⟨(), .cons () (.print () (.binary () (.symbol .star)
    (.binary () (.symbol .plus) (.int () 1) (.int () 2)) (.int () 3))) (.empty ())⟩

theorem Program.parse_printed_printProduct :
    printProduct.Parseable ∧ printProduct.text = Utf8.ofString "print ( 1 + 2 ) * 3 " ∧
      Scan.Layout printProduct.words printProduct.text ∧
        ∀ name bytes, Scan.Layout printProduct.words bytes →
          ∃ q, Pipeline.parse ⟨name, bytes, none⟩ = .ok q ∧ q.shape = printProduct.shape := by
  have hone : (Word.num 1).Spellable := show 0 ≤ Int64.toInt 1 by decide
  have htwo : (Word.num 2).Spellable := show 0 ≤ Int64.toInt 2 by decide
  have hthree : (Word.num 3).Spellable := show 0 ≤ Int64.toInt 3 by decide
  have hparseable : printProduct.Parseable :=
    ⟨List.cons_ne_nil _ _, ⟨by decide, ⟨by decide, hone, htwo⟩, hthree⟩, trivial⟩
  exact ⟨hparseable, by decide +kernel, printProduct.parse_printed hparseable⟩

end PairDict
