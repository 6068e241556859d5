import PairDict.Lexeme
import PairDict.Tree

/-! # The grammar and its derivation trees

The grammar of the language, without saying how a program is read.  A **derivation
tree** is a value of one of the types below, one type for each phrase of the grammar
and one constructor for each rule.  It has a **yield**, the words that it derives
(`words`), and it stands for a **program tree** (`tree`).

* `Level n`: expressions whose operators outside of brackets stand on level `n` or
  bind tighter.  A level has one operator (`operators`), and its rule is
  `Level n ::= Level n op Level (n + 1) | Level (n + 1)`, so it groups to the left.
* `Prefixed`: at most one operator before an operand.
* `Postfixed`: an atom and any number of brackets after it (`Suffixes`), each of which
  gets, deletes or updates (`Slot`).
* `Atom`: a dictionary of one entry, a literal, a variable or a parenthesis.
* `Statement`, `Braces`, `Sequence`: a sequence has at least one statement, and may
  end in one separator.

Parentheses, and the level on which an expression is derived, are part of a derivation
tree and not of the program tree.

A derivation tree says nothing about positions.  `Spells ws s r` says that the stream
`s` consists of lexemes with the words `ws`, at any positions, and then of `r`.
-/
namespace PairDict

namespace Grammar

/-! ## Expressions -/

/-- The operators between operands, one for each level, the loosest first. -/
def operators : List Symbol := [.comma, .andAnd, .eql, .plus, .star]

/-- The operators before an operand. -/
def prefixes : List Word := [.keyword .fst, .keyword .snd, .symbol .minus, .symbol .bang]

mutual

/-- An expression on one of the levels, of which level 5 has no operator. -/
inductive Level : Nat → Type where
  | prefixed : Prefixed → Level 5
  | tighter {n} : Level (n + 1) → Level n
  | binary {n op} : operators[n]? = some op → Level n → Level (n + 1) → Level n

/-- An operand with at most one operator before it. -/
inductive Prefixed where
  | bare (x : Postfixed)
  | applied (op : Word) (h : op ∈ prefixes) (x : Postfixed)

/-- An atom with the brackets after it. -/
inductive Postfixed where
  | mk (base : Atom) (suffixes : Suffixes)

/-- Brackets, one after another, each with a key. -/
inductive Suffixes where
  | nil
  | cons (key : Level 0) (slot : Slot) (rest : Suffixes)

/-- What stands between a key and its closing bracket, which is `[key]`, `[key:]` or
`[key:value]`. -/
inductive Slot where
  | get
  | delete
  | update (value : Level 0)

/-- An expression that needs nothing around it. -/
inductive Atom where
  | entry (key value : Level 0)
  | bool (b : Bool)
  | num (n : Int64)
  | name (x : String)
  | paren (x : Level 0)

end

/-- An expression, on the loosest level. -/
abbrev Expression := Level 0

mutual

/-- The words of an expression. -/
def Level.words : {n : Nat} → Level n → List Word
  | _, .prefixed x => x.words
  | _, .tighter x => x.words
  | _, @Level.binary _ op _ x y => x.words ++ .symbol op :: y.words

def Prefixed.words : Prefixed → List Word
  | .bare x => x.words
  | .applied op _ x => op :: x.words

def Postfixed.words : Postfixed → List Word
  | .mk base suffixes => base.words ++ suffixes.words

def Suffixes.words : Suffixes → List Word
  | .nil => []
  | .cons k slot rest =>
    .symbol .lbrack :: (k.words ++ (slot.words ++ .symbol .rbrack :: rest.words))

def Slot.words : Slot → List Word
  | .get => []
  | .delete => [.symbol .colon]
  | .update v => .symbol .colon :: v.words

def Atom.words : Atom → List Word
  | .entry k v =>
    .symbol .lbrack :: (k.words ++ .symbol .colon :: (v.words ++ [.symbol .rbrack]))
  | .bool b => [.bool b]
  | .num n => [.num n]
  | .name x => [.name x]
  | .paren x => .symbol .lparen :: (x.words ++ [.symbol .rparen])

end

/-- The node of an operator between operands; the comma builds pairs. -/
def join : Symbol → Expr Unit → Expr Unit → Expr Unit
  | .comma, x, y => .pair () x y
  | op, x, y => .binary () (.symbol op) x y

mutual

/-- The tree of an expression. -/
def Level.tree : {n : Nat} → Level n → Expr Unit
  | _, .prefixed x => x.tree
  | _, .tighter x => x.tree
  | _, @Level.binary _ op _ x y => join op x.tree y.tree

def Prefixed.tree : Prefixed → Expr Unit
  | .bare x => x.tree
  | .applied op _ x => .unary () op.token x.tree

def Postfixed.tree : Postfixed → Expr Unit
  | .mk base suffixes => suffixes.tree base.tree

/-- The tree of an operand with brackets after it, the first of them innermost. -/
def Suffixes.tree : Suffixes → Expr Unit → Expr Unit
  | .nil, x => x
  | .cons k slot rest, x => rest.tree (slot.tree x k.tree)

/-- The tree of an operand with one bracket after it. -/
def Slot.tree : Slot → Expr Unit → Expr Unit → Expr Unit
  | .get, x, k => .select () .get x k
  | .delete, x, k => .select () .delete x k
  | .update v, x, k => .store () .update x k v.tree

def Atom.tree : Atom → Expr Unit
  | .entry k v => .entry () k.tree v.tree
  | .bool b => .bool () b
  | .num n => .int () n
  | .name x => .name () x
  | .paren x => x.tree

end

/-! ### Levels and precedences

The level of an operator is its precedence, counted from zero. -/

theorem precedence_of_operator {n : Nat} {op : Symbol} (h : operators[n]? = some op) :
    (Token.symbol op).precedence = n + 1 := by
  match n, h with
  | 0, h | 1, h | 2, h | 3, h | 4, h =>
    cases h
    rfl

/-- What binds at all is an operator of some level. -/
theorem operator_of_precedence {s : TokenStream} {n : Nat} (h : s.token.precedence = n + 1) :
    ∃ op p t, s = .cons ⟨.symbol op, p⟩ t ∧ operators[n]? = some op := by
  match s, h with
  | .cons ⟨.symbol op, p⟩ t, h =>
    refine ⟨op, p, t, rfl, ?_⟩
    cases op with
    | comma | andAnd | eql | plus | star =>
      cases h
      rfl
    | _ => cases h

theorem precedence_le (t : Token) : t.precedence ≤ 5 := by
  unfold Token.precedence
  split <;> decide

/-- What stands on a level stands on the looser ones too. -/
theorem Level.loosen {m k : Nat} (h : m ≤ k) (d : Level k) :
    ∃ e : Level m, e.words = d.words ∧ e.tree = d.tree := by
  obtain ⟨j, rfl⟩ := Nat.exists_eq_add_of_le h
  clear h
  induction j with
  | zero => exact ⟨d, rfl, rfl⟩
  | succ j ih => exact ih (.tighter d)

/-! ## Statements -/

mutual

/-- A statement. -/
inductive Statement where
  | var (x : String) (value : Expression)
  | assign (x : String) (value : Expression)
  | print (x : Expression)
  | ifThen (cond : Expression) (yes : Braces)
  | ifElse (cond : Expression) (yes no : Braces)
  | forEach (x : String) (dict : Expression) (body : Braces)

/-- A sequence in braces. -/
inductive Braces where
  | mk (body : Sequence)

/-- Statements with a separator between them, and perhaps one at the end. -/
inductive Sequence where
  | last (s : Statement)
  | trailing (s : Statement)
  | more (s : Statement) (rest : Sequence)

end

mutual

/-- The words of a statement. -/
def Statement.words : Statement → List Word
  | .var x e => .keyword .varKw :: .name x :: .symbol .assign :: e.words
  | .assign x e => .name x :: .symbol .assign :: e.words
  | .print e => .keyword .printKw :: e.words
  | .ifThen c b =>
    .keyword .ifKw :: .symbol .lparen :: (c.words ++ .symbol .rparen :: b.words)
  | .ifElse c b b' =>
    .keyword .ifKw :: .symbol .lparen ::
      (c.words ++ .symbol .rparen :: (b.words ++ .keyword .elseKw :: b'.words))
  | .forEach x d b =>
    .keyword .forKw :: .symbol .lparen :: .keyword .varKw :: .name x :: .keyword .ofKw ::
      (d.words ++ .symbol .rparen :: b.words)

def Braces.words : Braces → List Word
  | .mk body => .symbol .lbrace :: (body.words ++ [.symbol .rbrace])

def Sequence.words : Sequence → List Word
  | .last s => s.words
  | .trailing s => s.words ++ [.symbol .semi]
  | .more s rest => s.words ++ .symbol .semi :: rest.words

end

mutual

/-- The tree of a statement. -/
def Statement.tree : Statement → Stmt Unit
  | .var x e => .var () ⟨(), x⟩ e.tree
  | .assign x e => .assign () ⟨(), x⟩ e.tree
  | .print e => .print () e.tree
  | .ifThen c b => .ifThen () c.tree b.tree
  | .ifElse c b b' => .ifElse () c.tree b.tree b'.tree
  | .forEach x d b => .forEach () ⟨(), x⟩ d.tree b.tree

def Braces.tree : Braces → Block Unit
  | .mk body => .mk () body.tree ()

def Sequence.tree : Sequence → Seq Unit
  | .last s | .trailing s => .cons () s.tree (.empty ())
  | .more s rest => .cons () s.tree rest.tree

end

/-- The tree of a program, which is a sequence. -/
def Sequence.program (d : Sequence) : Program Unit := ⟨(), d.tree⟩

end Grammar

/-! ## Streams -/

/-- The stream `s` starts with lexemes whose words are `ws`, and goes on with `r`. -/
def Spells : List Word → TokenStream → TokenStream → Prop
  | [], s, r => s = r
  | w :: ws, s, r => ∃ p t, s = .cons ⟨w, p⟩ t ∧ Spells ws t r

namespace Spells

variable {ws ws' : List Word} {s r : TokenStream}

@[simp] theorem nil_iff : Spells [] s r ↔ s = r := Iff.rfl

@[simp] theorem cons_iff {w : Word} :
    Spells (w :: ws) s r ↔ ∃ p t, s = .cons ⟨w, p⟩ t ∧ Spells ws t r := Iff.rfl

@[simp] theorem append_iff : Spells (ws ++ ws') s r ↔ ∃ t, Spells ws s t ∧ Spells ws' t r := by
  induction ws generalizing s with
  | nil => simp
  | cons w ws ih =>
    simp only [List.cons_append, cons_iff, ih]
    constructor
    · rintro ⟨p, t, hs, u, hu, hr⟩
      exact ⟨u, ⟨p, t, hs, hu⟩, hr⟩
    · rintro ⟨u, ⟨p, t, hs, hu⟩, hr⟩
      exact ⟨p, t, hs, u, hu, hr⟩

/-- A stream that ends where its source does is spelled by its own words, and by no
others. -/
theorem eof_iff :
    (∃ p, Spells ws s (.eof p)) ↔ s.failure? = none ∧ ws = s.lexemes.map Lexeme.word := by
  induction s generalizing ws with
  | eof q =>
    cases ws with
    | nil => simp [TokenStream.failure?, TokenStream.lexemes]
    | cons w ws => simp [TokenStream.lexemes]
  | failed e =>
    cases ws with
    | nil => simp [TokenStream.failure?]
    | cons w ws => simp [TokenStream.failure?]
  | cons l rest ih =>
    cases ws with
    | nil => simp [TokenStream.lexemes]
    | cons w ws =>
      obtain ⟨word, pos⟩ := l
      simp only [cons_iff, TokenStream.failure?, TokenStream.lexemes, List.map_cons,
        List.cons.injEq]
      constructor
      · rintro ⟨p, q, t, ht, hr⟩
        cases ht
        obtain ⟨hfail, hws⟩ := ih.1 ⟨p, hr⟩
        exact ⟨hfail, rfl, hws⟩
      · rintro ⟨hfail, rfl, hws⟩
        obtain ⟨p, hr⟩ := ih.2 ⟨hfail, hws⟩
        exact ⟨p, pos, rest, rfl, hr⟩

/-- Every list of words is spelled by some stream. -/
theorem exists_stream (ws : List Word) (r : TokenStream) : ∃ s, Spells ws s r := by
  induction ws with
  | nil => exact ⟨r, rfl⟩
  | cons w ws ih =>
    obtain ⟨s, hs⟩ := ih
    exact ⟨.cons ⟨w, .none⟩ s, .none, s, rfl, hs⟩

end Spells

/-! ## First words -/

namespace Grammar

variable {s r : TokenStream}

/-- An atom starts with a word that is neither an operator nor a closing bracket. -/
theorem Atom.front {d : Atom} (h : Spells d.words s r) :
    ∃ w p t, s = .cons ⟨w, p⟩ t ∧ w ∉ prefixes ∧ w ≠ .symbol .rbrack := by
  cases d with
  | entry k v | paren x =>
    obtain ⟨p, t, rfl, -⟩ := h
    exact ⟨_, p, t, rfl, by decide, by decide⟩
  | bool b | num n | name x =>
    obtain ⟨p, t, rfl, -⟩ := h
    exact ⟨_, p, t, rfl, by simp [prefixes], nofun⟩

theorem Postfixed.front {d : Postfixed} (h : Spells d.words s r) :
    ∃ w p t, s = .cons ⟨w, p⟩ t ∧ w ∉ prefixes ∧ w ≠ .symbol .rbrack := by
  cases d with
  | mk base suffixes =>
    obtain ⟨t, hbase, -⟩ := Spells.append_iff.1 h
    exact Atom.front hbase

/-- No expression starts with a closing bracket. -/
theorem Level.front {s : TokenStream} :
    ∀ {n : Nat} {d : Level n} {r : TokenStream}, Spells d.words s r → s.token ≠ .symbol .rbrack
  | _, .prefixed (.bare x), _, h => by
    obtain ⟨w, p, t, rfl, -, hw⟩ := Postfixed.front h
    exact fun hs => hw (by cases w <;> cases hs; rfl)
  | _, .prefixed (.applied op hop x), _, h => by
    obtain ⟨p, t, rfl, -⟩ := h
    simp only [prefixes, List.mem_cons, List.not_mem_nil, or_false] at hop
    rcases hop with rfl | rfl | rfl | rfl <;> exact nofun
  | _, .tighter x, _, h => Level.front (d := x) h
  | _, .binary _ x y, _, h => by
    obtain ⟨t, hx, -⟩ := Spells.append_iff.1 h
    exact Level.front hx

/-! ## What may follow

Where phrases follow each other, the first ends where it can no longer be continued. -/

/-- An expression on level `n` is followed by no bracket, and by no operator that binds
tighter than the operator of the level. -/
def Follows (n : Nat) (s : TokenStream) : Prop :=
  s.token.precedence ≤ n + 1 ∧ s.token ≠ .symbol .lbrack

/-- Nothing continues an expression here. -/
def Closed (s : TokenStream) : Prop := s.token.precedence = 0 ∧ s.token ≠ .symbol .lbrack

theorem Closed.follows (h : Closed s) (n : Nat) : Follows n s :=
  ⟨h.1 ▸ Nat.zero_le _, h.2⟩

/-- Whatever the slot, nothing continues the key. -/
theorem Slot.closed {d : Slot} {q : Pos} (h : Spells d.words s (.cons ⟨.symbol .rbrack, q⟩ r)) :
    Closed s := by
  cases d with
  | get =>
    cases h
    exact ⟨rfl, nofun⟩
  | delete | update v =>
    obtain ⟨p, t, rfl, -⟩ := h
    exact ⟨rfl, nofun⟩

theorem Follows.tighter {n : Nat} (h : Follows n s) : Follows (n + 1) s :=
  ⟨Nat.le_succ_of_le h.1, h.2⟩

theorem follows_operator {n : Nat} {op : Symbol} {p : Pos} {t : TokenStream}
    (h : operators[n]? = some op) : Follows n (.cons ⟨.symbol op, p⟩ t) := by
  have hprec : (Token.symbol op).precedence = n + 1 := precedence_of_operator h
  refine ⟨Nat.le_of_eq hprec, fun hop => ?_⟩
  cases hop
  cases hprec

/-- A sequence is followed by a closing brace or by the end of the source. -/
def EndsSequence (s : TokenStream) : Prop := s.token = .symbol .rbrace ∨ s.token = .eof

/-- A statement is followed by a separator or by the end of its sequence. -/
def EndsStatement (s : TokenStream) : Prop := s.token = .symbol .semi ∨ EndsSequence s

theorem EndsStatement.closed (h : EndsStatement s) : Closed s := by
  rcases h with h | h | h <;> unfold Closed <;> rw [h] <;> decide

theorem EndsStatement.not_else (h : EndsStatement s) : s.token ≠ .keyword .elseKw := by
  rcases h with h | h | h <;> rw [h] <;> decide

theorem EndsSequence.not_semi (h : EndsSequence s) : s.token ≠ .symbol .semi := by
  rcases h with h | h <;> rw [h] <;> decide

/-- No sequence ends where a statement starts. -/
theorem Statement.front {d : Statement} (h : Spells d.words s r) : ¬ EndsSequence s := by
  cases d <;> obtain ⟨p, t, rfl, -⟩ := h <;> rintro (h | h) <;> cases h

theorem Sequence.front {d : Sequence} (h : Spells d.words s r) : ¬ EndsSequence s := by
  cases d with
  | last c => exact Statement.front h
  | trailing c | more c rest =>
    obtain ⟨t, hc, -⟩ := Spells.append_iff.1 h
    exact Statement.front hc

end Grammar

end PairDict
