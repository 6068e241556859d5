import PairDict.Proofs.Grammar.Parsed
import PairDict.Proofs.Tree.Caption
import PairDict.Proofs.Tree.Documented

/-! # Trees as forests of captions

An outline of a tree is that of a forest, with a caption in each node (`Expr.lines_forest`,
`Seq.lines_forest`).  If the tree is one that was parsed, its lines can be read, since names and
numbers hold no blank (`Seq.forest_legal`), and the forest settles what is shown of the tree
(`Expr.forest_inj`, `Seq.forest_inj`).

Nodes with a part that may be missing are told apart by what is below them: there is a third
child below an `if` with two branches, and the operation of a dictionary tells which parts there
are.
-/
namespace PairDict

open Outline (Forest)

variable {α γ : Type} {P : γ → Prop} {Q : α → Prop} {key : α → γ} {label : α → String}

/-- An expression as a node, before others. -/
def Expr.forest : Expr α → Forest (Caption α) → Forest (Caption α)
  | .name a s, rest => .cons (.valued "Name" s a) .nil rest
  | .int a n, rest => .cons (.valued "IntLit" (toString n.toInt) a) .nil rest
  | .bool a b, rest => .cons (.valued "BoolLit" (if b then "true" else "false") a) .nil rest
  | .pair a x y, rest => .cons (.plain "PairLit" a) (x.forest (y.forest .nil)) rest
  | .unary a op x, rest => .cons (.valued "UnaryExpr" op.text a) (x.forest .nil) rest
  | .binary a op x y, rest =>
    .cons (.valued "BinaryExpr" op.text a) (x.forest (y.forest .nil)) rest
  | .entry a k v, rest =>
    .cons (.valued "DictExpr" DictOp.create.text a)
      (.cons (.role "Key:") (k.forest .nil) (.cons (.role "Value:") (v.forest .nil) .nil)) rest
  | .select a op d k, rest =>
    .cons (.valued "DictExpr" op.toDictOp.text a)
      (.cons (.role "Dict:") (d.forest .nil) (.cons (.role "Key:") (k.forest .nil) .nil)) rest
  | .store a op d k v, rest =>
    .cons (.valued "DictExpr" op.text a)
      (.cons (.role "Dict:") (d.forest .nil) (.cons (.role "Key:") (k.forest .nil)
        (.cons (.role "Value:") (v.forest .nil) .nil))) rest

mutual

/-- A statement as a node, before others. -/
def Stmt.forest : Stmt α → Forest (Caption α) → Forest (Caption α)
  | .var a x e, rest =>
    .cons (.plain "VarStmt" a) (.cons (.bound "Name:" x.name) .nil
      (.cons (.role "Value:") (e.forest .nil) .nil)) rest
  | .assign a x e, rest =>
    .cons (.plain "AssignStmt" a) (.cons (.bound "Name:" x.name) .nil
      (.cons (.role "Value:") (e.forest .nil) .nil)) rest
  | .print a e, rest => .cons (.plain "PrintStmt" a) (e.forest .nil) rest
  | .ifThen a c t, rest =>
    .cons (.plain "IfStmt" a) (.cons (.role "Cond:") (c.forest .nil)
      (.cons (.role "Then:") (t.forest .nil) .nil)) rest
  | .ifElse a c t e, rest =>
    .cons (.plain "IfStmt" a) (.cons (.role "Cond:") (c.forest .nil)
      (.cons (.role "Then:") (t.forest .nil) (.cons (.role "Else:") (e.forest .nil) .nil))) rest
  | .forEach a x d b, rest =>
    .cons (.plain "ForStmt" a) (.cons (.bound "Var:" x.name) .nil
      (.cons (.role "Dict:") (d.forest .nil) (.cons (.role "Body:") (b.forest .nil) .nil))) rest
  | .block b, rest => b.forest rest

/-- A block as a node, before others. -/
def Block.forest : Block α → Forest (Caption α) → Forest (Caption α)
  | .mk a s _, rest => .cons (.plain "Block" a) s.forest rest

/-- The statements of a sequence as nodes. -/
def Seq.forest : Seq α → Forest (Caption α)
  | .empty _ => .nil
  | .cons _ s rest => s.forest rest.forest

end

/-- The outline of an expression has the lines of its forest. -/
theorem Expr.lines_forest (label : α → String) (e : Expr α) (rest : Forest (Caption α))
    (depth : Nat) :
    (e.forest rest).lines (Caption.text label) depth =
      e.outline label depth ++ rest.lines (Caption.text label) depth := by
  induction e generalizing rest depth with
  | name | int | bool => rfl
  | pair a x y ihx ihy | binary a op x y ihx ihy =>
    simp [forest, outline, Forest.lines, ihx, ihy, Caption.text]
  | unary a op x ih => simp [forest, outline, Forest.lines, ih, Caption.text]
  | entry a x y ihx ihy | select a op x y ihx ihy =>
    simp [forest, outline, Forest.lines, Outline.role, ihx, ihy, Caption.text]
  | store a op d k v ihd ihk ihv =>
    simp [forest, outline, Forest.lines, Outline.role, ihd, ihk, ihv, Caption.text]

mutual

theorem Stmt.lines_forest (label : α → String) : ∀ (s : Stmt α) (rest : Forest (Caption α))
    (depth : Nat),
    (s.forest rest).lines (Caption.text label) depth =
      s.outline label depth ++ rest.lines (Caption.text label) depth
  | .var a x e, rest, depth | .assign a x e, rest, depth | .print a e, rest, depth => by
    simp [Stmt.forest, Stmt.outline, Forest.lines, Outline.role, Expr.lines_forest, Caption.text]
  | .ifThen a c t, rest, depth => by
    simp [Stmt.forest, Stmt.outline, Forest.lines, Outline.role, Expr.lines_forest,
      Block.lines_forest label t, Caption.text]
  | .ifElse a c t e, rest, depth => by
    simp [Stmt.forest, Stmt.outline, Forest.lines, Outline.role, Expr.lines_forest,
      Block.lines_forest label t, Block.lines_forest label e, Caption.text]
  | .forEach a x d b, rest, depth => by
    simp [Stmt.forest, Stmt.outline, Forest.lines, Outline.role, Expr.lines_forest,
      Block.lines_forest label b, Caption.text]
  | .block b, rest, depth => by
    rw [Stmt.forest, Stmt.outline, Block.lines_forest label b]

theorem Block.lines_forest (label : α → String) : ∀ (b : Block α) (rest : Forest (Caption α))
    (depth : Nat),
    (b.forest rest).lines (Caption.text label) depth =
      b.outline label depth ++ rest.lines (Caption.text label) depth
  | .mk a s close, rest, depth => by
    rw [Block.forest, Block.outline, Forest.lines, Seq.lines_forest label s]
    simp [Caption.text]

theorem Seq.lines_forest (label : α → String) : ∀ (s : Seq α) (depth : Nat),
    s.forest.lines (Caption.text label) depth = s.outline label depth
  | .empty a, _ => rfl
  | .cons a s rest, depth => by
    rw [Seq.forest, Seq.outline, Stmt.lines_forest label s, Seq.lines_forest label rest]

end

/-! ## Lines of parsed trees -/

theorem solid_of_spellable {x : String} (h : (Word.name x).Spellable) : Caption.Solid x :=
  fun c hc => (h.pattern.plain c hc).1

theorem solid_of_int (n : Int) : Caption.Solid (toString n) := by
  intro c hc
  have hinInt : ∀ c, Scan.isBlank c = true → Numeral.inInt c = false := by
    intro c hblank
    simp only [Scan.isBlank, Bool.or_eq_true, decide_eq_true_eq] at hblank
    rcases hblank with ((((rfl | rfl) | rfl) | rfl) | rfl) | rfl <;> rfl
  refine Bool.eq_false_iff.2 fun hblank => ?_
  have hmem := Numeral.inInt_of_mem hc
  rw [hinInt c hblank] at hmem
  cases hmem

/-- The operators of the grammar are told apart by their texts, which hold no blank. -/
theorem solid_of_mem_operators {op : Token} (h : op ∈ Token.prefixes ++ Token.operators) :
    Caption.Solid op.text := by
  have hall : ∀ op ∈ Token.prefixes ++ Token.operators,
      op.text.toList.all (fun c => !Scan.isBlank c) = true := by decide
  exact .of_all (hall op h)

theorem operator_text_inj {op op' : Token} (h : op ∈ Token.prefixes ++ Token.operators)
    (h' : op' ∈ Token.prefixes ++ Token.operators) (htext : op.text = op'.text) : op = op' := by
  have hread := ofText?_text_of_mem h
  rw [htext, ofText?_text_of_mem h'] at hread
  exact (Option.some.inj hread).symm

theorem Expr.Parseable.mem_prefixes {a : α} {op : Token} {x : Expr α}
    (h : (Expr.unary a op x).Parseable) : op ∈ Token.prefixes ++ Token.operators := by
  have hall : ∀ w ∈ Grammar.prefixes, w.token ∈ Token.prefixes ++ Token.operators := by decide
  obtain ⟨⟨w, hw, rfl⟩, -⟩ := h
  exact hall w hw

theorem Expr.Parseable.mem_operators {a : α} {op : Token} {x y : Expr α}
    (h : (Expr.binary a op x y).Parseable) : op ∈ Token.prefixes ++ Token.operators := by
  have hall : ∀ op ∈ [Token.symbol .plus, .symbol .star, .symbol .eql, .symbol .andAnd],
      op ∈ Token.prefixes ++ Token.operators := by decide
  exact hall op h.1

/-- The lines of a parseable expression can be read, if its annotations have what `Q` needs. -/
theorem Expr.forest_legal (hQ : ∀ a, P (key a) → Q a) {e : Expr α} (h : (e.map key).Built P)
    (he : e.Parseable) {rest : Forest (Caption α)} (hrest : rest.All (Caption.Legal Q)) :
    (e.forest rest).All (Caption.Legal Q) := by
  induction e generalizing rest with
  | name a s =>
    cases h with
    | name ha => exact .cons (.valued (by decide) (solid_of_spellable he) (hQ a ha)) .nil hrest
  | int a n =>
    cases h with
    | int ha => exact .cons (.valued (by decide) (solid_of_int _) (hQ a ha)) .nil hrest
  | bool a b =>
    cases h with
    | bool ha =>
      have hsolid : Caption.Solid (if b then "true" else "false") := by
        cases b <;> exact .of_all (by decide)
      exact .cons (.valued (by decide) hsolid (hQ a ha)) .nil hrest
  | pair a x y ihx ihy =>
    cases h with
    | pair ha hx hy =>
      exact .cons (.plain (by decide) (hQ a ha)) (ihx hx he.1 (ihy hy he.2 .nil)) hrest
  | unary a op x ih =>
    cases h with
    | unary ha _ hx =>
      exact .cons (.valued (by decide) (solid_of_mem_operators he.mem_prefixes) (hQ a ha))
        (ih hx he.2 .nil) hrest
  | binary a op x y ihx ihy =>
    cases h with
    | binary ha _ hx hy =>
      exact .cons (.valued (by decide) (solid_of_mem_operators he.mem_operators) (hQ a ha))
        (ihx hx he.2.1 (ihy hy he.2.2 .nil)) hrest
  | entry a k v ihk ihv =>
    cases h with
    | entry ha hk hv =>
      exact .cons (.valued (by decide) (.of_all (by decide)) (hQ a ha))
        (.cons (.role (by decide)) (ihk hk he.1 .nil)
          (.cons (.role (by decide)) (ihv hv he.2 .nil) .nil)) hrest
  | select a op d k ihd ihk =>
    obtain ⟨hop, hd, hk⟩ := he
    have hsolid : Caption.Solid op.toDictOp.text := by
      rcases hop with rfl | rfl <;> exact .of_all (by decide)
    have hparts : P (key a) ∧ (d.map key).Built P ∧ (k.map key).Built P := by
      cases h with
      | get ha hd hk | delete ha hd hk => exact ⟨ha, hd, hk⟩
    exact .cons (.valued (by decide) hsolid (hQ a hparts.1))
      (.cons (.role (by decide)) (ihd hparts.2.1 hd .nil)
        (.cons (.role (by decide)) (ihk hparts.2.2 hk .nil) .nil)) hrest
  | store a op d k v ihd ihk ihv =>
    cases h with
    | update ha hd hk hv =>
      exact .cons (.valued (by decide) (.of_all (by decide)) (hQ a ha))
        (.cons (.role (by decide)) (ihd hd he.2.1 .nil)
          (.cons (.role (by decide)) (ihk hk he.2.2.1 .nil)
            (.cons (.role (by decide)) (ihv hv he.2.2.2 .nil) .nil))) hrest

mutual

theorem Stmt.forest_legal (hQ : ∀ a, P (key a) → Q a) : ∀ {s : Stmt α}, (s.map key).Built P →
    s.Parseable → ∀ {rest : Forest (Caption α)}, rest.All (Caption.Legal Q) →
    (s.forest rest).All (Caption.Legal Q)
  | .var a x e, .var ha _ he, hs, _, hrest | .assign a x e, .assign ha _ he, hs, _, hrest =>
    .cons (.plain (by decide) (hQ a ha))
      (.cons (.bound (by decide) (solid_of_spellable hs.1)) .nil
        (.cons (.role (by decide)) (e.forest_legal hQ he hs.2 .nil) .nil)) hrest
  | .print a e, .print ha he, hs, _, hrest =>
    .cons (.plain (by decide) (hQ a ha)) (e.forest_legal hQ he hs .nil) hrest
  | .ifThen a c t, .ifThen ha hc ht, hs, _, hrest =>
    .cons (.plain (by decide) (hQ a ha))
      (.cons (.role (by decide)) (c.forest_legal hQ hc hs.1 .nil)
        (.cons (.role (by decide)) (Block.forest_legal hQ ht hs.2 .nil) .nil)) hrest
  | .ifElse a c t e, .ifElse ha hc ht he, hs, _, hrest =>
    .cons (.plain (by decide) (hQ a ha))
      (.cons (.role (by decide)) (c.forest_legal hQ hc hs.1 .nil)
        (.cons (.role (by decide)) (Block.forest_legal hQ ht hs.2.1 .nil)
          (.cons (.role (by decide)) (Block.forest_legal hQ he hs.2.2 .nil) .nil))) hrest
  | .forEach a x d b, .forEach ha _ hd hb, hs, _, hrest =>
    .cons (.plain (by decide) (hQ a ha))
      (.cons (.bound (by decide) (solid_of_spellable hs.1)) .nil
        (.cons (.role (by decide)) (d.forest_legal hQ hd hs.2.1 .nil)
          (.cons (.role (by decide)) (Block.forest_legal hQ hb hs.2.2 .nil) .nil))) hrest
  | .block b, h, _, _, _ => by cases h

theorem Block.forest_legal (hQ : ∀ a, P (key a) → Q a) : ∀ {b : Block α}, (b.map key).Built P →
    b.Parseable → ∀ {rest : Forest (Caption α)}, rest.All (Caption.Legal Q) →
    (b.forest rest).All (Caption.Legal Q)
  | .mk a s close, .mk ha hs _, hb, _, hrest =>
    .cons (.plain (by decide) (hQ a ha)) (Seq.forest_legal hQ hs hb.2) hrest

theorem Seq.forest_legal (hQ : ∀ a, P (key a) → Q a) : ∀ {s : Seq α}, (s.map key).Built P →
    s.Parseable → s.forest.All (Caption.Legal Q)
  | .empty _, _, _ => .nil
  | .cons a s rest, .cons _ hs hrest, h =>
    Stmt.forest_legal hQ hs h.1 (Seq.forest_legal hQ hrest h.2)

end

/-! ## Forests of parsed trees -/

/-- **The forest of an expression settles the expression**, and what follows it. -/
theorem Expr.forest_inj {e e' : Expr α} (he : e.Parseable) (he' : e'.Parseable)
    {rest rest' : Forest (Caption α)} (h : e.forest rest = e'.forest rest') :
    e = e' ∧ rest = rest' := by
  induction e generalizing e' rest rest' with
  | name a s =>
    cases e' with
    | name a' s' =>
      cases h
      exact ⟨rfl, rfl⟩
    | _ => simp [forest] at h
  | int a n =>
    cases e' with
    | int a' n' =>
      simp only [forest, Forest.cons.injEq, Caption.valued.injEq, true_and] at h
      obtain ⟨⟨hn, rfl⟩, rfl⟩ := h
      have heq := Int64.toInt_inj.1 (Numeral.toString_int_inj (congrArg String.toList hn))
      rw [heq]
      exact ⟨rfl, rfl⟩
    | _ => simp [forest] at h
  | bool a b =>
    cases e' with
    | bool a' b' => cases b <;> cases b' <;> simp_all [forest]
    | _ => simp [forest] at h
  | pair a x y ihx ihy =>
    cases e' with
    | pair a' x' y' =>
      simp only [forest, Forest.cons.injEq, Caption.plain.injEq, true_and] at h
      obtain ⟨rfl, hx, rfl⟩ := h
      obtain ⟨rfl, hy⟩ := ihx he.1 he'.1 hx
      obtain ⟨rfl, -⟩ := ihy he.2 he'.2 hy
      exact ⟨rfl, rfl⟩
    | _ => simp [forest] at h
  | unary a op x ih =>
    cases e' with
    | unary a' op' x' =>
      simp only [forest, Forest.cons.injEq, Caption.valued.injEq, true_and] at h
      obtain ⟨⟨hop, rfl⟩, hx, rfl⟩ := h
      obtain ⟨rfl, -⟩ := ih he.2 he'.2 hx
      rw [operator_text_inj he.mem_prefixes he'.mem_prefixes hop]
      exact ⟨rfl, rfl⟩
    | _ => simp [forest] at h
  | binary a op x y ihx ihy =>
    cases e' with
    | binary a' op' x' y' =>
      simp only [forest, Forest.cons.injEq, Caption.valued.injEq, true_and] at h
      obtain ⟨⟨hop, rfl⟩, hx, rfl⟩ := h
      obtain ⟨rfl, hy⟩ := ihx he.2.1 he'.2.1 hx
      obtain ⟨rfl, -⟩ := ihy he.2.2 he'.2.2 hy
      rw [operator_text_inj he.mem_operators he'.mem_operators hop]
      exact ⟨rfl, rfl⟩
    | _ => simp [forest] at h
  | entry a k v ihk ihv =>
    cases e' with
    | entry a' k' v' =>
      simp only [forest, Forest.cons.injEq, Caption.valued.injEq, true_and, and_true] at h
      obtain ⟨rfl, ⟨hk, hv⟩, rfl⟩ := h
      obtain ⟨rfl, -⟩ := ihk he.1 he'.1 hk
      obtain ⟨rfl, -⟩ := ihv he.2 he'.2 hv
      exact ⟨rfl, rfl⟩
    | _ => simp [forest] at h
  | select a op d k ihd ihk =>
    cases e' with
    | select a' op' d' k' =>
      simp only [forest, Forest.cons.injEq, Caption.valued.injEq, true_and, and_true] at h
      obtain ⟨⟨hop, rfl⟩, ⟨hd, hk⟩, rfl⟩ := h
      obtain ⟨rfl, -⟩ := ihd he.2.1 he'.2.1 hd
      obtain ⟨rfl, -⟩ := ihk he.2.2 he'.2.2 hk
      have heq : op = op' := by
        rcases he.1 with rfl | rfl <;> rcases he'.1 with rfl | rfl <;>
          simp_all [SelectOp.toDictOp, DictOp.text]
      rw [heq]
      exact ⟨rfl, rfl⟩
    | _ => simp [forest] at h
  | store a op d k v ihd ihk ihv =>
    cases e' with
    | store a' op' d' k' v' =>
      simp only [forest, Forest.cons.injEq, Caption.valued.injEq, true_and, and_true] at h
      obtain ⟨⟨-, rfl⟩, ⟨hd, hk, hv⟩, rfl⟩ := h
      obtain ⟨rfl, -⟩ := ihd he.2.1 he'.2.1 hd
      obtain ⟨rfl, -⟩ := ihk he.2.2.1 he'.2.2.1 hk
      obtain ⟨rfl, -⟩ := ihv he.2.2.2 he'.2.2.2 hv
      obtain ⟨rfl, -⟩ := he
      obtain ⟨rfl, -⟩ := he'
      exact ⟨rfl, rfl⟩
    | _ => simp [forest] at h

mutual

/-- The forest of a statement settles what is shown of it, and what follows it. -/
theorem Stmt.forest_inj : ∀ {s s' : Stmt α}, s.Parseable → s'.Parseable →
    ∀ {rest rest' : Forest (Caption α)}, s.forest rest = s'.forest rest' →
      (s.map key).shown = (s'.map key).shown ∧ rest = rest'
  | .var a x e, s', hs, hs', _, _, h => by
    cases s' with
    | var a' x' e' =>
      simp only [Stmt.forest, Forest.cons.injEq, Caption.plain.injEq, Caption.bound.injEq,
        true_and, and_true] at h
      obtain ⟨rfl, ⟨hx, he⟩, rfl⟩ := h
      obtain ⟨rfl, -⟩ := e.forest_inj hs.2 hs'.2 he
      simp only [Stmt.map, Stmt.shown, Ident.map, hx, and_self]
    | block b => exact hs'.elim
    | _ => simp [Stmt.forest] at h
  | .assign a x e, s', hs, hs', _, _, h => by
    cases s' with
    | assign a' x' e' =>
      simp only [Stmt.forest, Forest.cons.injEq, Caption.plain.injEq, Caption.bound.injEq,
        true_and, and_true] at h
      obtain ⟨rfl, ⟨hx, he⟩, rfl⟩ := h
      obtain ⟨rfl, -⟩ := e.forest_inj hs.2 hs'.2 he
      simp only [Stmt.map, Stmt.shown, Ident.map, hx, and_self]
    | block b => exact hs'.elim
    | _ => simp [Stmt.forest] at h
  | .print a e, s', hs, hs', _, _, h => by
    cases s' with
    | print a' e' =>
      simp only [Stmt.forest, Forest.cons.injEq, Caption.plain.injEq, true_and] at h
      obtain ⟨rfl, he, rfl⟩ := h
      obtain ⟨rfl, -⟩ := e.forest_inj hs hs' he
      exact ⟨rfl, rfl⟩
    | block b => exact hs'.elim
    | _ => simp [Stmt.forest] at h
  | .ifThen a c t, s', hs, hs', _, _, h => by
    cases s' with
    | ifThen a' c' t' =>
      simp only [Stmt.forest, Forest.cons.injEq, Caption.plain.injEq, true_and, and_true] at h
      obtain ⟨rfl, ⟨hc, ht⟩, rfl⟩ := h
      obtain ⟨rfl, -⟩ := c.forest_inj hs.1 hs'.1 hc
      simp only [Stmt.map, Stmt.shown, (Block.forest_inj hs.2 hs'.2 ht).1, and_self]
    | block b => exact hs'.elim
    | _ => simp [Stmt.forest] at h
  | .ifElse a c t e, s', hs, hs', _, _, h => by
    cases s' with
    | ifElse a' c' t' e' =>
      simp only [Stmt.forest, Forest.cons.injEq, Caption.plain.injEq, true_and, and_true] at h
      obtain ⟨rfl, ⟨hc, ht, he⟩, rfl⟩ := h
      obtain ⟨rfl, -⟩ := c.forest_inj hs.1 hs'.1 hc
      simp only [Stmt.map, Stmt.shown, (Block.forest_inj hs.2.1 hs'.2.1 ht).1,
        (Block.forest_inj hs.2.2 hs'.2.2 he).1, and_self]
    | block b => exact hs'.elim
    | _ => simp [Stmt.forest] at h
  | .forEach a x d b, s', hs, hs', _, _, h => by
    cases s' with
    | forEach a' x' d' b' =>
      simp only [Stmt.forest, Forest.cons.injEq, Caption.plain.injEq, Caption.bound.injEq,
        true_and, and_true] at h
      obtain ⟨rfl, ⟨hx, hd, hb⟩, rfl⟩ := h
      obtain ⟨rfl, -⟩ := d.forest_inj hs.2.1 hs'.2.1 hd
      simp only [Stmt.map, Stmt.shown, Ident.map, hx, (Block.forest_inj hs.2.2 hs'.2.2 hb).1,
        and_self]
    | block b => exact hs'.elim
    | _ => simp [Stmt.forest] at h
  | .block b, _, hs, _, _, _, _ => hs.elim

theorem Block.forest_inj : ∀ {b b' : Block α}, b.Parseable → b'.Parseable →
    ∀ {rest rest' : Forest (Caption α)}, b.forest rest = b'.forest rest' →
      (b.map key).shown = (b'.map key).shown ∧ rest = rest'
  | .mk a s close, .mk a' s' close', hb, hb', _, _, h => by
    simp only [Block.forest, Forest.cons.injEq, Caption.plain.injEq, true_and] at h
    obtain ⟨rfl, hs, rfl⟩ := h
    simp only [Block.map, Block.shown, Seq.forest_inj hb.2 hb'.2 hs, and_self]

/-- The forest of a sequence settles what is shown of it. -/
theorem Seq.forest_inj : ∀ {s s' : Seq α}, s.Parseable → s'.Parseable → s.forest = s'.forest →
    (s.map key).shown = (s'.map key).shown
  | .empty _, .empty _, _, _, _ => rfl
  | .empty _, .cons a s rest, _, hs', h => by
    cases s with
    | block b => exact hs'.1.elim
    | _ => cases h
  | .cons a s rest, .empty _, hs, _, h => by
    cases s with
    | block b => exact hs.1.elim
    | _ => cases h
  | .cons a s rest, .cons a' s' rest', hs, hs', h => by
    obtain ⟨hfirst, hothers⟩ := Stmt.forest_inj hs.1 hs'.1 h
    simp only [Seq.map, Seq.shown, hfirst, Seq.forest_inj hs.2 hs'.2 hothers]

end

end PairDict
