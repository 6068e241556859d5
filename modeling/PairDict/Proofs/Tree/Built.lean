import PairDict.Proofs.Tree.Relabel

/-! # Trees that the grammar builds

A tree is **built from** annotations of a kind, given as a predicate, if every node of it
has an annotation of that kind and is one that the grammar has.  So its operators are those
of the grammar, its dictionary nodes create, get, update and delete, and no block of it
stands as a statement.

Since nothing that is computed from a tree depends on its annotations, an error can only
repeat one of them: a tree built from annotations of a kind is the same tree over that kind
as a type, where there are no other annotations to repeat (`Program.Built.check_error`,
`Program.Built.run_fault`).
-/
namespace PairDict

variable {α σ : Type} {P : α → Prop}

/-- The tokens that stand before an operand. -/
def Token.prefixes : List Token := [.symbol .minus, .symbol .bang, .keyword .fst, .keyword .snd]

/-- The tokens that stand between operands, and make no pair of them. -/
def Token.operators : List Token := [.symbol .andAnd, .symbol .eql, .symbol .plus, .symbol .star]

/-- The expression is one of the grammar, with annotations of which `P` holds. -/
inductive Expr.Built (P : α → Prop) : Expr α → Prop where
  | name {a s} : P a → Built P (.name a s)
  | int {a n} : P a → Built P (.int a n)
  | bool {a b} : P a → Built P (.bool a b)
  | pair {a x y} : P a → Built P x → Built P y → Built P (.pair a x y)
  | unary {a op x} : P a → op ∈ Token.prefixes → Built P x → Built P (.unary a op x)
  | binary {a op x y} : P a → op ∈ Token.operators → Built P x → Built P y →
      Built P (.binary a op x y)
  | entry {a k v} : P a → Built P k → Built P v → Built P (.entry a k v)
  | get {a d k} : P a → Built P d → Built P k → Built P (.select a .get d k)
  | delete {a d k} : P a → Built P d → Built P k → Built P (.select a .delete d k)
  | update {a d k v} : P a → Built P d → Built P k → Built P v →
      Built P (.store a .update d k v)

mutual

/-- The statement is one of the grammar, with annotations of which `P` holds. -/
inductive Stmt.Built (P : α → Prop) : Stmt α → Prop where
  | var {a x e} : P a → P x.ann → Expr.Built P e → Stmt.Built P (.var a x e)
  | assign {a x e} : P a → P x.ann → Expr.Built P e → Stmt.Built P (.assign a x e)
  | print {a e} : P a → Expr.Built P e → Stmt.Built P (.print a e)
  | ifThen {a c t} : P a → Expr.Built P c → Block.Built P t → Stmt.Built P (.ifThen a c t)
  | ifElse {a c t e} : P a → Expr.Built P c → Block.Built P t → Block.Built P e →
      Stmt.Built P (.ifElse a c t e)
  | forEach {a x d b} : P a → P x.ann → Expr.Built P d → Block.Built P b →
      Stmt.Built P (.forEach a x d b)

/-- The block is one of the grammar, with annotations of which `P` holds. -/
inductive Block.Built (P : α → Prop) : Block α → Prop where
  | mk {a s close} : P a → Seq.Built P s → P close → Block.Built P (.mk a s close)

/-- The sequence is one of the grammar, with annotations of which `P` holds. -/
inductive Seq.Built (P : α → Prop) : Seq α → Prop where
  | empty {a} : P a → Seq.Built P (.empty a)
  | cons {a s rest} : P a → Stmt.Built P s → Seq.Built P rest → Seq.Built P (.cons a s rest)

end

/-- The program is one of the grammar, with annotations of which `P` holds. -/
structure Program.Built (P : α → Prop) (p : Program α) : Prop where
  /-- The annotation of the program. -/
  ann : P p.ann
  /-- Its statements. -/
  body : p.body.Built P

theorem Expr.Built.ann {e : Expr α} (h : e.Built P) : P e.ann := by
  cases h <;> assumption

/-! ## The same tree over a smaller type of annotations -/

theorem Ident.exists_over {x : Ident α} (h : P x.ann) :
    ∃ x' : Ident { a // P a }, x'.map Subtype.val = x :=
  ⟨⟨⟨x.ann, h⟩, x.name⟩, rfl⟩

theorem Expr.Built.exists_over {e : Expr α} (h : e.Built P) :
    ∃ e' : Expr { a // P a }, e'.map Subtype.val = e := by
  induction h with
  | @name a s ha => exact ⟨.name ⟨a, ha⟩ s, rfl⟩
  | @int a n ha => exact ⟨.int ⟨a, ha⟩ n, rfl⟩
  | @bool a b ha => exact ⟨.bool ⟨a, ha⟩ b, rfl⟩
  | @pair a _ _ ha _ _ ihx ihy =>
    obtain ⟨x, rfl⟩ := ihx
    obtain ⟨y, rfl⟩ := ihy
    exact ⟨.pair ⟨a, ha⟩ x y, rfl⟩
  | @unary a op _ ha _ _ ihx =>
    obtain ⟨x, rfl⟩ := ihx
    exact ⟨.unary ⟨a, ha⟩ op x, rfl⟩
  | @binary a op _ _ ha _ _ _ ihx ihy =>
    obtain ⟨x, rfl⟩ := ihx
    obtain ⟨y, rfl⟩ := ihy
    exact ⟨.binary ⟨a, ha⟩ op x y, rfl⟩
  | @entry a _ _ ha _ _ ihk ihv =>
    obtain ⟨k, rfl⟩ := ihk
    obtain ⟨v, rfl⟩ := ihv
    exact ⟨.entry ⟨a, ha⟩ k v, rfl⟩
  | @get a _ _ ha _ _ ihd ihk =>
    obtain ⟨d, rfl⟩ := ihd
    obtain ⟨k, rfl⟩ := ihk
    exact ⟨.select ⟨a, ha⟩ .get d k, rfl⟩
  | @delete a _ _ ha _ _ ihd ihk =>
    obtain ⟨d, rfl⟩ := ihd
    obtain ⟨k, rfl⟩ := ihk
    exact ⟨.select ⟨a, ha⟩ .delete d k, rfl⟩
  | @update a _ _ _ ha _ _ _ ihd ihk ihv =>
    obtain ⟨d, rfl⟩ := ihd
    obtain ⟨k, rfl⟩ := ihk
    obtain ⟨v, rfl⟩ := ihv
    exact ⟨.store ⟨a, ha⟩ .update d k v, rfl⟩

mutual

theorem Stmt.Built.exists_over : ∀ {s : Stmt α}, s.Built P →
    ∃ s' : Stmt { a // P a }, s'.map Subtype.val = s
  | .var a _ _, .var ha hx he => by
    obtain ⟨x, rfl⟩ := Ident.exists_over hx
    obtain ⟨e, rfl⟩ := he.exists_over
    exact ⟨.var ⟨a, ha⟩ x e, rfl⟩
  | .assign a _ _, .assign ha hx he => by
    obtain ⟨x, rfl⟩ := Ident.exists_over hx
    obtain ⟨e, rfl⟩ := he.exists_over
    exact ⟨.assign ⟨a, ha⟩ x e, rfl⟩
  | .print a _, .print ha he => by
    obtain ⟨e, rfl⟩ := he.exists_over
    exact ⟨.print ⟨a, ha⟩ e, rfl⟩
  | .ifThen a _ _, .ifThen ha hc ht => by
    obtain ⟨c, rfl⟩ := hc.exists_over
    obtain ⟨t, rfl⟩ := ht.exists_over
    exact ⟨.ifThen ⟨a, ha⟩ c t, rfl⟩
  | .ifElse a _ _ _, .ifElse ha hc ht he => by
    obtain ⟨c, rfl⟩ := hc.exists_over
    obtain ⟨t, rfl⟩ := ht.exists_over
    obtain ⟨e, rfl⟩ := he.exists_over
    exact ⟨.ifElse ⟨a, ha⟩ c t e, rfl⟩
  | .forEach a _ _ _, .forEach ha hx hd hb => by
    obtain ⟨x, rfl⟩ := Ident.exists_over hx
    obtain ⟨d, rfl⟩ := hd.exists_over
    obtain ⟨b, rfl⟩ := hb.exists_over
    exact ⟨.forEach ⟨a, ha⟩ x d b, rfl⟩

theorem Block.Built.exists_over : ∀ {b : Block α}, b.Built P →
    ∃ b' : Block { a // P a }, b'.map Subtype.val = b
  | .mk a _ close, .mk ha hs hclose => by
    obtain ⟨s, rfl⟩ := hs.exists_over
    exact ⟨.mk ⟨a, ha⟩ s ⟨close, hclose⟩, rfl⟩

theorem Seq.Built.exists_over : ∀ {s : Seq α}, s.Built P →
    ∃ s' : Seq { a // P a }, s'.map Subtype.val = s
  | .empty a, .empty ha => ⟨.empty ⟨a, ha⟩, rfl⟩
  | .cons a _ _, .cons ha hs hrest => by
    obtain ⟨s, rfl⟩ := hs.exists_over
    obtain ⟨rest, rfl⟩ := hrest.exists_over
    exact ⟨.cons ⟨a, ha⟩ s rest, rfl⟩

end

namespace Program

variable {p : Program α}

theorem Built.exists_over (h : p.Built P) :
    ∃ p' : Program { a // P a }, p'.map Subtype.val = p := by
  obtain ⟨body, hbody⟩ := h.body.exists_over
  exact ⟨⟨⟨p.ann, h.ann⟩, body⟩, congrArg (Program.mk p.ann) hbody⟩

/-! ## Errors repeat annotations -/

/-- **A type error repeats an annotation of the program.** -/
theorem Built.check_error (h : p.Built P) {e : TypeError α} (he : p.check.1 = .error e) :
    P e.ann := by
  obtain ⟨p', rfl⟩ := h.exists_over
  rw [check_map] at he
  cases hcheck : p'.check.1 with
  | ok _ =>
    rw [hcheck] at he
    cases he
  | error e' =>
    rw [hcheck] at he
    cases he
    exact e'.ann.property

/-- **A fault repeats an annotation of the program.** -/
theorem Built.run_fault (h : p.Built P) {sink : Sink σ} {out out' : σ} {f : Fault α}
    (hf : p.run sink out = (.error f, out')) : P f.ann := by
  obtain ⟨p', rfl⟩ := h.exists_over
  rw [run_map] at hf
  cases hrun : p'.run sink out with
  | mk result out₁ =>
    rw [hrun] at hf
    cases result with
    | ok _ => cases hf
    | error f' =>
      cases hf
      exact f'.ann.property

end Program

end PairDict
