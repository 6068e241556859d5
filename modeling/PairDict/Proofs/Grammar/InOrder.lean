import PairDict.Proofs.Grammar.Derivation
import PairDict.Proofs.Grammar.Reading
import PairDict.Proofs.Lexeme.Order
import PairDict.Proofs.Tree.Ordered
import PairDict.Proofs.Tree.Tour

/-! # A walk goes through the source from left to right

The positions of a stream increase, and a node stands at its first lexeme, or where its left
operand stands.  So what a reader reads lies between the position that it starts at and the
position that it leaves (`Parser.seq_between`), although sequences end at the lexeme after
them, which may be the first of what follows, and parentheses leave no node.

A walk over a parsed program therefore never goes back, and stays within a block from its
opening brace to its closing one (`Source.walk_in_order`).
-/
namespace PairDict

open Node (Between AllBetween)

theorem Pos.Before.noLater {p q : Pos} (h : p.Before q) : p.NoLater q := by
  unfold Before at h
  unfold NoLater
  omega

/-- The positions of a stream go forward. -/
def TokenStream.Forward : TokenStream → Prop
  | .cons l t => l.pos.NoLater t.pos ∧ t.Forward
  | _ => True

theorem TokenStream.forward_of_pairwise {s : TokenStream}
    (h : s.suffixes.Pairwise fun u v => u.pos.Before v.pos) : s.Forward := by
  induction s with
  | eof p => trivial
  | failed e => trivial
  | cons l t ih =>
    obtain ⟨hfirst, hrest⟩ := List.pairwise_cons.1 h
    have hbefore : l.pos.Before t.pos := hfirst t (mem_suffixes_iff.2 ⟨[], rfl⟩)
    exact ⟨Pos.Before.noLater hbefore, ih hrest⟩

theorem Source.forward (src : Source) : src.tokens.Forward := by
  obtain ⟨name, bytes, failure⟩ := src
  cases failure with
  | none => exact TokenStream.forward_of_pairwise (Scan.streamFrom_pairwise _ _)
  | some cause => trivial

namespace Parser

open TokenStream

variable {lo hi : Pos}

/-! ## Expressions -/

/-- A literal or a name stands at one place. -/
theorem between_leaf {e : Expr Pos} (h : (Node.expr e).children = []) (hlo : lo.NoLater e.ann)
    (hhi : e.ann.NoLater hi) : Between lo (.expr e) hi :=
  .parent rfl hlo (h ▸ .nil hhi)

/-- A node over two operands. -/
theorem between_two {mid : Pos} {e x y : Expr Pos}
    (h : (Node.expr e).children = [.expr x, .expr y]) (hlo : lo.NoLater e.ann)
    (hx : Between e.ann (.expr x) mid) (hy : Between mid (.expr y) hi) :
    Between lo (.expr e) hi :=
  .parent rfl hlo (h ▸ .cons hx hy)

theorem between_combine {mid : Pos} {op : Token} {x y : Expr Pos}
    (hx : Between lo (.expr x) mid) (hy : Between mid (.expr y) hi) :
    Between lo (.expr (combine op x y)) hi := by
  obtain ⟨hlo, hx⟩ := hx.start
  unfold combine
  split
  · exact between_two rfl hlo hx hy
  · exact between_two rfl hlo hx hy

mutual

theorem binary_between {level : Nat} {s r : TokenStream} {y : Expr Pos} (hs : s.Forward)
    (h : (binary level s).Gives y r) : Between s.pos (.expr y) r.pos ∧ r.Forward := by
  obtain ⟨x, t, hx, hy⟩ := binary_gives_iff.1 h
  have hlen : t.length < s.length := hx.lt
  obtain ⟨hx, ht⟩ := unary_between hs hx
  exact binaryTail_between hx ht hy
termination_by (s.length, 3)

theorem binaryTail_between {level : Nat} {s r : TokenStream} {x y : Expr Pos} {lo : Pos}
    (hx : Between lo (.expr x) s.pos) (hs : s.Forward) (h : (binaryTail level x s).Gives y r) :
    Between lo (.expr y) r.pos ∧ r.Forward := by
  by_cases hle : s.token.precedence ≤ level
  · obtain ⟨rfl, rfl⟩ := (binaryTail_of_le hle).1 h
    exact ⟨hx, hs⟩
  · obtain ⟨l, t, hst⟩ : ∃ l t, s = .cons l t := by
      cases s with
      | eof p | failed e => exact absurd (Nat.zero_le level) hle
      | cons l t => exact ⟨l, t, rfl⟩
    have hlen : s.length = t.length + 1 := by rw [hst]; rfl
    rw [hst] at hs hle h hx
    obtain ⟨z, t', hz, hy⟩ := (binaryTail_of_lt (Nat.lt_of_not_le hle)).1 h
    have hlen' : t'.length < t.length := hz.lt
    obtain ⟨hz, ht'⟩ := binary_between hs.2 hz
    exact binaryTail_between (between_combine (hx.raise hs.1) hz) ht' hy
termination_by (s.length, 0)

theorem unary_between {s r : TokenStream} {y : Expr Pos} (hs : s.Forward)
    (h : (unary s).Gives y r) : Between s.pos (.expr y) r.pos ∧ r.Forward := by
  by_cases hop : ∃ l t, s = .cons l t ∧ isUnary l.word = true
  · obtain ⟨l, t, hst, hop⟩ := hop
    have hlen : s.length = t.length + 1 := by rw [hst]; rfl
    rw [hst] at hs
    rw [hst, unary_of_isUnary hop] at h
    obtain ⟨x, hx, rfl⟩ := h
    obtain ⟨hx, hr⟩ := postfixed_between hs.2 hx
    rw [hst]
    exact ⟨.parent rfl (.refl _) (hx.lower hs.1), hr⟩
  · have hno : ∀ l t, s = .cons l t → isUnary l.word = false := fun l t hst =>
      Bool.eq_false_iff.2 fun hl => hop ⟨l, t, hst, hl⟩
    exact postfixed_between hs ((unary_of_not_isUnary hno).1 h)
termination_by (s.length, 2)

theorem postfixed_between {s r : TokenStream} {y : Expr Pos} (hs : s.Forward)
    (h : (postfixed s).Gives y r) : Between s.pos (.expr y) r.pos ∧ r.Forward := by
  obtain ⟨x, t, hx, hy⟩ := postfixed_gives_iff.1 h
  have hlen : t.length < s.length := hx.lt
  obtain ⟨hx, ht⟩ := operand_between hs hx
  exact brackets_between hx ht hy
termination_by (s.length, 1)

theorem brackets_between {s r : TokenStream} {x y : Expr Pos} {lo : Pos}
    (hx : Between lo (.expr x) s.pos) (hs : s.Forward) (h : (brackets x s).Gives y r) :
    Between lo (.expr y) r.pos ∧ r.Forward := by
  by_cases hfront : s.token = .symbol .lbrack
  · obtain ⟨p, t, hst⟩ := token_eq_symbol_iff.1 hfront
    have hlen : s.length = t.length + 1 := by rw [hst]; rfl
    rw [hst] at hs hx
    rw [hst, brackets_of_lbrack] at h
    obtain ⟨key, t₁, z, t₂, hkey, hafter, hy⟩ := h
    have hlen₁ : t₁.length < t.length := hkey.lt
    have hlen₂ : t₂.length < t₁.length := hafter.lt
    obtain ⟨hkey, ht₁⟩ := binary_between hs.2 hkey
    obtain ⟨hz, ht₂⟩ := afterKey_between (hx.raise hs.1) hkey ht₁ hafter
    exact brackets_between hz ht₂ hy
  · obtain ⟨rfl, rfl⟩ := (brackets_of_ne hfront).1 h
    exact ⟨hx, hs⟩
termination_by (s.length, 0)

theorem afterKey_between {x key y : Expr Pos} {s r : TokenStream} {lo mid : Pos}
    (hx : Between lo (.expr x) mid) (hkey : Between mid (.expr key) s.pos) (hs : s.Forward)
    (h : AfterKey x key s y r) : Between lo (.expr y) r.pos ∧ r.Forward := by
  obtain ⟨hlo, hx⟩ := hx.start
  match s, h with
  | _, .get => exact ⟨between_two rfl hlo hx (hkey.raise hs.1), hs.2⟩
  | _, .delete => exact ⟨between_two rfl hlo hx (hkey.raise (hs.1.trans hs.2.1)), hs.2.2⟩
  | .cons _ t, .update _ hvalue =>
    obtain ⟨hvalue, hr⟩ := binary_between hs.2 hvalue
    exact ⟨.parent rfl hlo (.cons hx (.cons (hkey.raise hs.1) (hvalue.raise hr.1))), hr.2⟩
termination_by (s.length, 0)

theorem operand_between {s r : TokenStream} {y : Expr Pos} (hs : s.Forward)
    (h : (operand s).Gives y r) : Between s.pos (.expr y) r.pos ∧ r.Forward := by
  rcases operand_front h with ⟨p, t, hst⟩ | ⟨b, p, t, hst⟩ | ⟨n, p, t, hst⟩ | ⟨x, p, t, hst⟩ |
    ⟨p, t, hst⟩
  · have hlen : s.length = t.length + 1 := by rw [hst]; rfl
    rw [hst] at hs
    rw [hst, operand_of_lbrack] at h
    obtain ⟨key, q, t₁, value, q', hkey, hvalue, rfl⟩ := h
    have hlen₁ : t₁.length + 1 < t.length := hkey.lt
    obtain ⟨hkey, ht₁⟩ := binary_between hs.2 hkey
    obtain ⟨hvalue, hr⟩ := binary_between ht₁.2 hvalue
    rw [hst]
    exact ⟨between_two rfl (.refl _) ((hkey.lower hs.1).raise ht₁.1) (hvalue.raise hr.1), hr.2⟩
  · rw [hst] at hs
    rw [hst, operand_of_bool] at h
    obtain ⟨rfl, rfl⟩ := h
    rw [hst]
    exact ⟨between_leaf rfl (.refl _) hs.1, hs.2⟩
  · rw [hst] at hs
    rw [hst, operand_of_num] at h
    obtain ⟨rfl, rfl⟩ := h
    rw [hst]
    exact ⟨between_leaf rfl (.refl _) hs.1, hs.2⟩
  · rw [hst] at hs
    rw [hst, operand_of_name] at h
    obtain ⟨rfl, rfl⟩ := h
    rw [hst]
    exact ⟨between_leaf rfl (.refl _) hs.1, hs.2⟩
  · have hlen : s.length = t.length + 1 := by rw [hst]; rfl
    rw [hst] at hs
    rw [hst, operand_of_lparen] at h
    obtain ⟨q, hy⟩ := h
    obtain ⟨hy, hr⟩ := binary_between hs.2 hy
    rw [hst]
    exact ⟨(hy.lower hs.1).raise hr.1, hr.2⟩
termination_by (s.length, 0)

end

theorem expr_between {s r : TokenStream} {y : Expr Pos} (hs : s.Forward)
    (h : (expr s).Gives y r) : Between s.pos (.expr y) r.pos ∧ r.Forward :=
  binary_between hs h

theorem parenthesized_between {s r : TokenStream} {y : Expr Pos} (hs : s.Forward)
    (h : (parenthesized s).Gives y r) : Between s.pos (.expr y) r.pos ∧ r.Forward := by
  obtain ⟨p, t, q, rfl, hy⟩ := parenthesized_gives_iff.1 h
  obtain ⟨hy, hr⟩ := expr_between hs.2 hy
  exact ⟨(hy.lower hs.1).raise hr.1, hr.2⟩

/-! ## Statements -/

mutual

theorem seq_between {s r : TokenStream} {body : Seq Pos} (hs : s.Forward)
    (h : (seq s).Gives body r) : Between s.pos (.seq body) r.pos ∧ r.Forward := by
  obtain ⟨first, t, hgives, hafter⟩ := seq_gives_iff.1 h
  have hlen : t.length < s.length := hgives.lt
  obtain ⟨hfirst, ht⟩ := stmt_between hs hgives
  -- a sequence that ends here ends at the lexeme that follows
  have hempty : ∀ p : Pos, Between p (.seq (.empty p)) p := fun p =>
    .parent rfl (.refl p) (.nil (.refl p))
  rcases hafter with ⟨-, rfl, rfl⟩ | ⟨p, t', htt', ⟨-, rfl, rfl⟩ | ⟨-, rest, hrest, rfl⟩⟩
  · exact ⟨.parent rfl (.refl _) (.cons hfirst (hempty _)), ht⟩
  · rw [htt'] at ht hfirst
    exact ⟨.parent rfl (.refl _) (.cons (hfirst.raise ht.1) (hempty _)), ht.2⟩
  · have hlen' : t.length = t'.length + 1 := by rw [htt']; rfl
    rw [htt'] at ht hfirst
    obtain ⟨hrest, hr⟩ := seq_between ht.2 hrest
    exact ⟨.parent rfl (.refl _) (.cons (hfirst.raise ht.1) hrest), hr⟩
termination_by (s.length, 1)

theorem stmt_between {s r : TokenStream} {c : Stmt Pos} (hs : s.Forward)
    (h : (stmt s).Gives c r) : Between s.pos (.stmt c) r.pos ∧ r.Forward := by
  rcases stmt_front h with ⟨p, t, hst⟩ | ⟨x, p, t, hst⟩ | ⟨p, t, hst⟩ | ⟨p, t, hst⟩ | ⟨p, t, hst⟩
  · rw [hst] at hs
    rw [hst, stmt_of_var] at h
    obtain ⟨x, q, q', t', value, rfl, hvalue, rfl⟩ := h
    obtain ⟨hname, hassign, hafter, ht'⟩ := hs
    obtain ⟨hvalue, hr⟩ := expr_between ht' hvalue
    rw [hst]
    exact ⟨.parent rfl (.refl _) (.cons (between_leaf rfl hname (hassign.trans hafter))
      (.cons hvalue (.nil (.refl _)))), hr⟩
  · rw [hst] at hs
    rw [hst, stmt_of_name] at h
    obtain ⟨q, t', value, rfl, hvalue, rfl⟩ := h
    obtain ⟨hassign, hafter, ht'⟩ := hs
    obtain ⟨hvalue, hr⟩ := expr_between ht' hvalue
    rw [hst]
    exact ⟨.parent rfl (.refl _) (.cons (between_leaf rfl (.refl _) (hassign.trans hafter))
      (.cons hvalue (.nil (.refl _)))), hr⟩
  · rw [hst] at hs
    rw [hst, stmt_of_print] at h
    obtain ⟨x, hx, rfl⟩ := h
    obtain ⟨hx, hr⟩ := expr_between hs.2 hx
    rw [hst]
    exact ⟨.parent rfl (.refl _) (.cons (hx.lower hs.1) (.nil (.refl _))), hr⟩
  · have hlen : s.length = t.length + 1 := by rw [hst]; rfl
    rw [hst] at hs
    rw [hst, stmt_of_if] at h
    obtain ⟨cond, t₁, yes, t₂, hgives, hgives', hafter⟩ := h
    have hlen₁ : t₁.length < t.length := hgives.lt
    have hlen₂ : t₂.length < t₁.length := hgives'.lt
    obtain ⟨hcond, ht₁⟩ := parenthesized_between hs.2 hgives
    obtain ⟨hyes, ht₂⟩ := block_between ht₁ hgives'
    rw [hst]
    rcases hafter with ⟨-, rfl, rfl⟩ | ⟨q, t₃, no, htt, hno, rfl⟩
    · exact ⟨.parent rfl (.refl _) (.cons (hcond.lower hs.1) (.cons hyes (.nil (.refl _)))), ht₂⟩
    · have hlen₃ : t₂.length = t₃.length + 1 := by rw [htt]; rfl
      rw [htt] at ht₂ hyes
      obtain ⟨hno, hr⟩ := block_between ht₂.2 hno
      exact ⟨.parent rfl (.refl _) (.cons (hcond.lower hs.1)
        (.cons (hyes.raise ht₂.1) (.cons hno (.nil (.refl _))))), hr⟩
  · have hlen : s.length = t.length + 1 := by rw [hst]; rfl
    rw [hst] at hs
    rw [hst, stmt_of_for] at h
    obtain ⟨x, q₁, q₂, q₃, q₄, t₁, dict, q₅, t₂, body, htt, hdict, hbody, rfl⟩ := h
    have hlen₁ : t.length = t₁.length + 1 + 1 + 1 + 1 := by rw [htt]; rfl
    have hlen₂ : t₂.length + 1 < t₁.length := hdict.lt
    rw [htt] at hs
    obtain ⟨hparen, hvar, hname, hof, hafter, ht₁⟩ := hs
    obtain ⟨hdict, ht₂⟩ := expr_between ht₁ hdict
    obtain ⟨hbody, hr⟩ := block_between ht₂.2 hbody
    rw [hst]
    exact ⟨.parent rfl (.refl _)
      (.cons (between_leaf rfl (hparen.trans (hvar.trans hname)) (hof.trans hafter))
        (.cons (hdict.raise ht₂.1) (.cons hbody (.nil (.refl _))))), hr⟩
termination_by (s.length, 0)

theorem block_between {s r : TokenStream} {b : Block Pos} (hs : s.Forward)
    (h : (block s).Gives b r) : Between s.pos (.stmt (.block b)) r.pos ∧ r.Forward := by
  obtain ⟨p, t, body, q, hst, hbody, rfl⟩ := block_gives_iff.1 h
  have hlen : s.length = t.length + 1 := by rw [hst]; rfl
  rw [hst] at hs
  obtain ⟨hbody, hr⟩ := seq_between hs.2 hbody
  rw [hst]
  exact ⟨.block (.refl _) (hbody.lower hs.1) hr.1, hr.2⟩
termination_by (s.length, 0)

end

end Parser

/-- A program lies between its first lexeme and its end. -/
theorem TokenStream.program_between {s : TokenStream} {p : Program Pos} (hs : s.Forward)
    (h : s.program = .ok p) : ∃ hi, Between p.ann (.program p) hi := by
  obtain ⟨body, q, hbody, rfl⟩ := program_eq_ok_iff.1 h
  obtain ⟨hbody, -⟩ := Parser.seq_between hs hbody
  exact ⟨_, .parent rfl (.refl _) hbody⟩

/-- **A walk goes through a parsed program in the order of its source, and visits each node
once.**  Every address of the tree is visited once; the positions never go back; and what
is visited within a block lies between its position and that of its closing brace.  A visitor,
whatever its answers depend on, visits all addresses but those properly below an address that
it refused, and a walk is the tour of a visitor that answers by the node alone. -/
theorem Source.walk_in_order {src : Source} {p : Program Pos} (h : src.tokens.program = .ok p) :
    ((Node.program p).addresses.Nodup ∧
      (∀ path, path ∈ (Node.program p).addresses ↔ ((Node.program p).at? path).isSome = true) ∧
      p.nodes.map some = (Node.program p).addresses.map (Node.program p).at?) ∧
    p.nodes.Pairwise (fun m n => m.ann.NoLater n.ann) ∧
    (∀ b, .stmt (.block b) ∈ p.nodes → ∀ n ∈ b.body.walk fun _ => true,
      b.ann.NoLater n.ann ∧ n.ann.NoLater b.close) ∧
    (∀ (σ : Type) (v : Visitor Pos σ) (s : σ),
      (Node.tour v (.program p) s).1.visited = (Node.program p).addresses.filter fun path =>
        ∀ above ∈ (Node.tour v (.program p) s).1.refused, ¬ Below path above) ∧
    ∀ enter : Node Pos → Bool, (p.walk enter).map some =
      (Node.tour (Node.plain enter) (.program p) ()).1.visited.map (Node.program p).at? := by
  obtain ⟨hi, hall⟩ := TokenStream.program_between src.forward h
  obtain ⟨hrises, hblocks⟩ := hall
  rw [List.flatMap_singleton] at hrises hblocks
  refine ⟨⟨Node.nodup_addresses _, Node.mem_addresses_iff _, Node.walk_eq_addresses (.program p)⟩,
    List.pairwise_map.1 hrises.pairwise, fun b hb n hn => ?_,
    fun σ v s => Node.visited_tour v _ s, fun enter => Node.walk_eq_tour enter (.program p)⟩
  exact (hblocks b hb).mem (List.mem_map_of_mem hn)

/-- A program with one block. -/
def ifPrint : Source := { name := "f", bytes := Utf8.ofString "if (a) \x7b print b \x7d" }

/-- In `if (a) \x7b print b \x7d` the sequence within the braces ends at the closing one. -/
theorem Source.walk_in_order_ifPrint :
    ∃ p, ifPrint.tokens.program = .ok p ∧
      p.nodes.map (fun n => (n.kind, n.ann.col)) =
        [("Program", 1), ("NonEmptyStmtSeq", 1), ("IfStmt", 1), ("Name", 5), ("Block", 8),
          ("NonEmptyStmtSeq", 10), ("PrintStmt", 10), ("Name", 16), ("EmptyStmtSeq", 18),
          ("EmptyStmtSeq", 19)] ∧
      p.nodes.Pairwise fun m n => m.ann.NoLater n.ann := by
  have htokens : ifPrint.tokens =
      .cons ⟨.keyword .ifKw, ⟨"f", 1, 1⟩⟩ (.cons ⟨.symbol .lparen, ⟨"f", 1, 4⟩⟩
        (.cons ⟨.name "a", ⟨"f", 1, 5⟩⟩ (.cons ⟨.symbol .rparen, ⟨"f", 1, 6⟩⟩
          (.cons ⟨.symbol .lbrace, ⟨"f", 1, 8⟩⟩ (.cons ⟨.keyword .printKw, ⟨"f", 1, 10⟩⟩
            (.cons ⟨.name "b", ⟨"f", 1, 16⟩⟩ (.cons ⟨.symbol .rbrace, ⟨"f", 1, 18⟩⟩
              (.eof ⟨"f", 1, 19⟩)))))))) := by decide +kernel
  have hprogram := htokens ▸ TokenStream.program_ifPrint
  exact ⟨_, hprogram, rfl, (Source.walk_in_order hprogram).2.1⟩

end PairDict
