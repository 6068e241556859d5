import PairDict.Lexeme.Scan
import PairDict.Proofs.Grammar.Placed
import PairDict.Proofs.Tree.Lines
import PairDict.Proofs.Typing.Visible

/-! # Tables of parsed programs

A parsed tree has no operand that an operation disregards (`Node.Built.idle`).  So if such a
program is accepted, its table is **complete**: it has a type for every expression, and for
every name that is declared (`Program.Built.typeOf?_isSome_iff`,
`Program.Built.defOf?_isSome_iff`).  Whether it is accepted or not, its table is **consistent**:
below an expression that has an entry every expression has one, and an entry follows from those
of the children and of the visible declarations (`Program.Built.follows`).
-/
namespace PairDict

variable {α : Type} {P : α → Prop}

/-- The operands of an expression of the grammar are of the grammar. -/
theorem Expr.Built.operand {e : Expr α} {c : Node α} {i : Nat} (h : e.Built P)
    (hc : (Node.expr e).children[i]? = some c) : ∃ e', c = .expr e' ∧ e'.Built P := by
  cases h with
  | name _ | int _ | bool _ => cases hc
  | unary _ _ hx =>
    match i, hc with
    | 0, rfl => exact ⟨_, rfl, hx⟩
  | pair _ hx hy | binary _ _ hx hy | entry _ hx hy | get _ hx hy | delete _ hx hy =>
    match i, hc with
    | 0, rfl => exact ⟨_, rfl, hx⟩
    | 1, rfl => exact ⟨_, rfl, hy⟩
  | update _ hd hk hv =>
    match i, hc with
    | 0, rfl => exact ⟨_, rfl, hd⟩
    | 1, rfl => exact ⟨_, rfl, hk⟩
    | 2, rfl => exact ⟨_, rfl, hv⟩

namespace Node

/-- The node is one of the grammar, with annotations of which `P` holds. -/
def Built (P : α → Prop) : Node α → Prop
  | .program p => p.Built P
  | .seq s => s.Built P
  | .stmt (.block b) => b.Built P
  | .stmt s => s.Built P
  | .expr e => e.Built P

theorem built_stmt {s : Stmt α} (h : s.Built P) : (Node.stmt s).Built P := by
  cases h with
  | var ha hx he => exact .var ha hx he
  | assign ha hx he => exact .assign ha hx he
  | print ha he => exact .print ha he
  | ifThen ha hc ht => exact .ifThen ha hc ht
  | ifElse ha hc ht he => exact .ifElse ha hc ht he
  | forEach ha hx hd hb => exact .forEach ha hx hd hb

/-- The children of a node of the grammar are of the grammar. -/
theorem Built.child {n c : Node α} {i : Nat} (h : n.Built P) (hc : n.children[i]? = some c) :
    c.Built P := by
  match n, h with
  | .program p, h =>
    match i, hc with
    | 0, rfl => exact h.body
  | .seq (.empty a), _ => cases hc
  | .seq (.cons a s rest), .cons _ hs hrest =>
    match i, hc with
    | 0, rfl => exact built_stmt hs
    | 1, rfl => exact hrest
  | .stmt (.var a x e), .var _ hx he | .stmt (.assign a x e), .assign _ hx he =>
    match i, hc with
    | 0, rfl => exact .name hx
    | 1, rfl => exact he
  | .stmt (.print a e), .print _ he =>
    match i, hc with
    | 0, rfl => exact he
  | .stmt (.ifThen a e b), .ifThen _ he hb =>
    match i, hc with
    | 0, rfl => exact he
    | 1, rfl => exact hb
  | .stmt (.ifElse a e b b'), .ifElse _ he hb hb' =>
    match i, hc with
    | 0, rfl => exact he
    | 1, rfl => exact hb
    | 2, rfl => exact hb'
  | .stmt (.forEach a x d b), .forEach _ hx hd hb =>
    match i, hc with
    | 0, rfl => exact .name hx
    | 1, rfl => exact hd
    | 2, rfl => exact hb
  | .stmt (.block (.mk a s close)), .mk _ hs _ =>
    match i, hc with
    | 0, rfl => exact hs
  | .expr e, h =>
    obtain ⟨e', rfl, he'⟩ := Expr.Built.operand h hc
    exact he'

/-- Nothing but a name that is bound or assigned has no type of its own. -/
theorem Built.idle {n : Node α} (h : n.Built P) (i : Nat) : n.idle i = n.target i := by
  match n, h with
  | .program p, _ | .seq s, _ => rfl
  | .stmt s, _ => cases s <;> cases i <;> rfl
  | .expr e, h => cases h <;> rfl

theorem Built.at? {n m : Node α} {path : List Nat} (h : n.Built P) (hat : n.at? path = some m) :
    m.Built P := by
  induction path generalizing n with
  | nil =>
    cases hat
    exact h
  | cons i path ih =>
    obtain ⟨c, hc, hat⟩ := Option.bind_eq_some_iff.1 hat
    exact ih (h.child hc) hat

/-- Below an expression there are expressions only. -/
theorem expr_of_at? {e : Expr α} {m : Node α} {path : List Nat}
    (hat : (Node.expr e).at? path = some m) : ∃ e', m = .expr e' := by
  induction path generalizing e with
  | nil =>
    cases hat
    exact ⟨e, rfl⟩
  | cons i path ih =>
    obtain ⟨c, hc, hat⟩ := Option.bind_eq_some_iff.1 hat
    obtain ⟨e', rfl⟩ := expr_of_child hc
    exact ih hat

theorem not_childAt_target_expr {e : Expr α} {path : List Nat} :
    ¬ (Node.expr e).ChildAt target path := by
  rintro ⟨above, i, m, -, hat, htarget⟩
  obtain ⟨e', rfl⟩ := expr_of_at? hat
  cases htarget

/-- To every other node there is a way on which nothing is idle. -/
theorem Built.live? {n m : Node α} {path : List Nat} (h : n.Built P) (hat : n.at? path = some m)
    (hnot : ¬ n.ChildAt target path) : n.live? path = some m := by
  induction path generalizing n with
  | nil => exact hat
  | cons i path ih =>
    obtain ⟨c, hc, hat⟩ := Option.bind_eq_some_iff.1 hat
    rw [Node.live?, h.idle, hc]
    cases htarget : n.target i with
    | false => exact ih (h.child hc) hat fun hchild => hnot ((childAt_cons_iff hc).2 (.inr hchild))
    | true =>
      -- the name has no children, so it is the one at the address
      cases path with
      | nil => exact absurd ((childAt_cons_iff hc).2 (.inl ⟨rfl, htarget⟩)) hnot
      | cons j path =>
        obtain ⟨x, rfl⟩ := name_of_target htarget hc
        cases hat

end Node

namespace Program

variable {p : Program α} {path : List Nat} {t : Ty}

/-- Without a table or with one, a checker ends as the check does. -/
theorem checkInto_fst (p : Program α) (info : Option Info) : (p.checkInto info).1 = p.check.1 :=
  congrArg Prod.fst (checkInto_eq info p)

theorem checkInto_snd (p : Program α) : (p.checkInto (some .empty)).2 = some p.info := by
  rw [checkInto_eq]
  exact congrArg some (Info.append_empty _)

/-- What the checker goes to in an accepted program is well typed. -/
theorem Built.reaches {m : Node α} (hp : p.Built P) (hok : p.check.1 = .ok ())
    (hat : (Node.program p).at? path = some m) (hnot : ¬ (Node.program p).ChildAt Node.target path) :
    ∃ Γ, Along Check.Calls (.program p) .empty path m Γ ∧ m.Typed Γ.frames := by
  have htyped : (Node.program p).Typed (Scope.frames .empty) := check_eq_ok_iff.1 hok
  have hlive := Node.Built.live? (show (Node.program p).Built P from hp) hat hnot
  obtain ⟨Γ, halong⟩ := Check.reaches htyped hlive
  exact ⟨Γ, halong, (Check.visited htyped halong).1⟩

/-- **The table of an accepted program has a type for every expression**, apart from the names
that statements bind or assign. -/
theorem Built.typeOf?_isSome_iff (hp : p.Built P) (hok : p.check.1 = .ok ()) :
    (p.info.typeOf? path).isSome = true ↔
      (∃ e, (Node.program p).at? path = some (.expr e)) ∧
        ¬ (Node.program p).ChildAt Node.target path := by
  rw [Option.isSome_iff_exists]
  constructor
  · rintro ⟨t, ht⟩
    obtain ⟨e, Γ, halong, -⟩ := typeOf?_eq_some_iff.1 ht
    refine ⟨⟨e, halong.at? Check.Calls.child⟩, ?_⟩
    rintro ⟨above, i, m, rfl, hat, htarget⟩
    obtain ⟨m', Γ', habove, hcall⟩ := halong.last
    obtain rfl := Option.some.inj (hat.symm.trans (habove.at? Check.Calls.child))
    rw [hcall.target] at htarget
    cases htarget
  · rintro ⟨⟨e, hat⟩, hnot⟩
    obtain ⟨Γ, halong, t, ht⟩ := hp.reaches hok hat hnot
    exact ⟨t, typeOf?_eq_some_iff.2 ⟨e, Γ, halong, Check.expr_type_eq_ok_iff.2 ht⟩⟩

/-- **The table of an accepted program has a type for every name that is declared.** -/
theorem Built.defOf?_isSome_iff (hp : p.Built P) (hok : p.check.1 = .ok ()) :
    (p.info.defOf? path).isSome = true ↔ (Node.program p).ChildAt Node.declares path := by
  rw [Option.isSome_iff_exists]
  constructor
  · rintro ⟨t, ht⟩
    obtain ⟨above, s, Γ, rfl, halong, hs⟩ := defOf?_eq_some_iff.1 ht
    refine ⟨above, 0, .stmt s, rfl, halong.at? Check.Calls.child, ?_⟩
    cases hs <;> rfl
  · rintro ⟨above, i, m, rfl, hat, hdeclares⟩
    have hnot : ¬ (Node.program p).ChildAt Node.target above := by
      rintro ⟨above, j, n, rfl, hn, htarget⟩
      -- a name declares nothing
      rw [Node.at?_append, hn] at hat
      obtain ⟨c, hc, hm⟩ := Option.bind_eq_some_iff.1 (show n.at? [j] = some m from hat)
      obtain ⟨x, rfl⟩ := Node.name_of_target htarget hc
      cases hm
      cases hdeclares
    obtain ⟨Γ, halong, hm⟩ := hp.reaches hok hat hnot
    suffices h : ∃ s t, i = 0 ∧ m = .stmt s ∧ Check.Declares Γ s t by
      obtain ⟨s, t, rfl, rfl, ht⟩ := h
      exact ⟨t, defOf?_eq_some_iff.2 ⟨above, s, Γ, rfl, halong, ht⟩⟩
    match m, i, hdeclares, hm with
    | .stmt (.var a x e), 0, _, ⟨_, hs⟩ =>
      generalize hΓ : Γ.frames = fs at hs
      cases hs with
      | var he hx =>
        obtain ⟨⟩ := hΓ
        exact ⟨_, _, rfl, rfl, .var (Check.expr_type_eq_ok_iff.2 he) hx⟩
    | .stmt (.forEach a x d b), 0, _, ⟨_, .forEach hd _⟩ =>
      exact ⟨_, _, rfl, rfl, .forEach (Check.expr_type_eq_ok_iff.2 hd)⟩

/-- **Below an expression that has an entry every expression has one.** -/
theorem Built.typeOf?_below (hp : p.Built P) {e : Expr α} {Γ : Scope Ty}
    (halong : Along Check.Calls (.program p) .empty path (.expr e) Γ)
    (ht : HasType Γ.frames e t) {below : List Nat}
    (hbelow : ((Node.expr e).at? below).isSome = true) :
    (p.info.typeOf? (path ++ below)).isSome = true := by
  obtain ⟨m, hm⟩ := Option.isSome_iff_exists.1 hbelow
  have he : (Node.expr e).Built P :=
    Node.Built.at? (show (Node.program p).Built P from hp) (halong.at? Check.Calls.child)
  have htyped : (Node.expr e).Typed Γ.frames := ⟨t, ht⟩
  obtain ⟨Γ', hbelow⟩ := Check.reaches htyped (he.live? hm Node.not_childAt_target_expr)
  obtain ⟨e', rfl⟩ := Node.expr_of_at? hm
  obtain ⟨s, hs⟩ := (Check.visited htyped hbelow).1
  have hentry : p.info.typeOf? (path ++ below) = some s :=
    typeOf?_eq_some_iff.2 ⟨e', Γ', halong.append hbelow, Check.expr_type_eq_ok_iff.2 hs⟩
  rw [hentry]
  rfl

/-- **An entry follows from those of the children and of the visible declarations.** -/
theorem Built.follows (hp : p.Built P) {e : Expr α} {Γ : Scope Ty}
    (halong : Along Check.Calls (.program p) .empty path (.expr e) Γ)
    (ht : HasType Γ.frames e t) :
    Follows
      (fun x s => ∃ decl, p.declaration? path x = some decl ∧ p.info.defOf? decl = some s)
      (fun i s => p.info.typeOf? (path ++ [i]) = some s) e t := by
  have he : (Node.expr e).Built P :=
    Node.Built.at? (show (Node.program p).Built P from hp) (halong.at? Check.Calls.child)
  refine (hasType_iff_follows.1 ht).mono (visible_reflects halong).find? ?_
  rintro i s ⟨e', hc, hs⟩
  have hidle : (Node.expr e).idle i = false := (he.idle i).trans rfl
  obtain ⟨Γ', hcall⟩ := Check.Calls.total (show (Node.expr e).Typed Γ.frames from ⟨t, ht⟩) hidle hc
  have hbelow := halong.append (.down hcall .here)
  cases hcall with
  | operand h => exact typeOf?_eq_some_iff.2 ⟨e', Γ, hbelow, Check.expr_type_eq_ok_iff.2 hs⟩

/-- **For every entry there is one line** in the outline of an accepted program, and it shows
the expression at the address and its type. -/
theorem Built.lines_annotated {p : Program Pos} {Q : Pos → Prop} (hp : p.Built Q)
    (hok : p.check.1 = .ok ()) :
    List.Forall₂ (fun path l => ∃ e t, (Node.program p).at? path = some (.expr e) ∧
        p.info.typeOf? path = some t ∧
        l.text = e.heading ++ " " ++ e.ann.text ++ " : " ++ t.text)
      ((Node.program p).addresses.filter fun path => (p.info.typeOf? path).isSome)
      (Outline.exprLines (p.check.2.outline Note.label)) := by
  have hmap : (Node.program p.check.2).map Note.ann = .program p :=
    Check.checked_map_ann .empty (.program p)
  have haddresses : (Node.program p.check.2).addresses = (Node.program p).addresses := by
    rw [← hmap, Node.addresses_map]
  have hexprAt : (Node.program p.check.2).exprAt = fun path => (p.info.typeOf? path).isSome := by
    funext path
    rw [← Node.exprAt_map Note.ann, hmap, Bool.eq_iff_iff, Node.exprAt_iff,
      hp.typeOf?_isSome_iff hok]
  have hlines := Node.lines_of_exprs Note.label (.program p.check.2) 0
  rw [haddresses, hexprAt] at hlines
  have hentries : ∀ path ∈ (Node.program p).addresses.filter fun path =>
      (p.info.typeOf? path).isSome, (p.info.typeOf? path).isSome = true :=
    fun path hpath => (List.mem_filter.1 hpath).2
  refine ((List.forall₂_and_left _ _).2 ⟨hentries, hlines⟩).imp fun path l h => ?_
  obtain ⟨hentry, noted, hat, htext⟩ := h
  obtain ⟨t, ht⟩ := Option.isSome_iff_exists.1 hentry
  obtain ⟨e, Γ, halong, htype⟩ := typeOf?_eq_some_iff.1 ht
  obtain ⟨⟩ := hat.symm.trans (Check.at?_checked halong)
  refine ⟨e, t, halong.at? Check.Calls.child, ht, ?_⟩
  rw [htext, ← Expr.heading_map Note.ann, Check.expr_tree_map_ann, Check.expr_tree_ann, htype]
  show _ ++ " " ++ (e.ann.text ++ " : " ++ t.text) = _
  rw [← String.append_assoc, ← String.append_assoc]

end Program

/-- **A table is complete if checking succeeds, and consistent in any case.**  Let a program be
parsed and checked.

* Without a table the outcome is the same as with one.
* If checking succeeds, the table has a type for an address if and only if a walk visits an
  expression at it that is not a name which a statement binds or assigns, and for a declaration
  if and only if there is a name at it that a statement declares.  In the outline of the checked
  tree the lines of expressions are those of the addresses with a type, in the order of a walk,
  and each shows the expression at its address and its type.
* However it ends, an address with a type is that of an expression, every expression below has a
  type as well, and the type follows by the rule of the node from the types of the children, or
  from that of the visible declaration if it is a name. -/
theorem Source.info_complete {src : Source} {p : Program Pos} (h : src.tokens.program = .ok p) :
    (∀ info, (p.checkInto none).1 = (p.checkInto (some info)).1) ∧
    ∃ info, (p.checkInto (some .empty)).2 = some info ∧
      ((p.checkInto (some .empty)).1 = .ok () →
        ((Node.program p).walk fun _ => true).map some =
          (Node.program p).addresses.map (Node.program p).at? ∧
        (∀ path, (info.typeOf? path).isSome = true ↔
          path ∈ (Node.program p).addresses ∧
            (∃ e, (Node.program p).at? path = some (.expr e)) ∧
            ¬ (Node.program p).ChildAt Node.target path) ∧
        (∀ path, (info.defOf? path).isSome = true ↔
          (Node.program p).ChildAt Node.declares path) ∧
        List.Forall₂ (fun path l => ∃ e t, (Node.program p).at? path = some (.expr e) ∧
            info.typeOf? path = some t ∧
            l.text = e.heading ++ " " ++ e.ann.text ++ " : " ++ t.text)
          ((Node.program p).addresses.filter fun path => (info.typeOf? path).isSome)
          (Outline.exprLines (p.check.2.outline Note.label))) ∧
      ∀ path t, info.typeOf? path = some t →
        ∃ e, (Node.program p).at? path = some (.expr e) ∧
          (∀ below, ((Node.expr e).at? below).isSome = true →
            (info.typeOf? (path ++ below)).isSome = true) ∧
          Follows
            (fun x s => ∃ decl, p.declaration? path x = some decl ∧ info.defOf? decl = some s)
            (fun i s => info.typeOf? (path ++ [i]) = some s) e t := by
  have hp : p.Built fun _ => True :=
    TokenStream.program_built (TokenStream.placed_of_spells fun _ _ _ => trivial) h
  refine ⟨fun info => ?_, p.info, p.checkInto_snd, fun hok => ?_, fun path t ht => ?_⟩
  · rw [Program.checkInto_fst, Program.checkInto_fst]
  · rw [Program.checkInto_fst] at hok
    refine ⟨Node.walk_eq_addresses _, fun path => (hp.typeOf?_isSome_iff hok).trans ?_,
      fun path => hp.defOf?_isSome_iff hok, hp.lines_annotated hok⟩
    refine ⟨fun ⟨⟨e, hat⟩, hnot⟩ => ⟨?_, ⟨e, hat⟩, hnot⟩, And.right⟩
    rw [Node.mem_addresses_iff, hat]
    rfl
  · obtain ⟨e, Γ, halong, htype⟩ := Program.typeOf?_eq_some_iff.1 ht
    have htyped := Check.expr_type_eq_ok_iff.1 htype
    exact ⟨e, halong.at? Check.Calls.child,
      fun below hbelow => hp.typeOf?_below halong htyped hbelow, hp.follows halong htyped⟩

/-- A program that declares a name and prints it. -/
def varPrint : Source := { name := "f", bytes := Utf8.ofString "var x = 1; print x" }

/-- In `var x = 1; print x` both expressions have the type that is entered for the declaration,
and the table has nothing else. -/
theorem Source.info_complete_varPrint :
    ∃ p info, varPrint.tokens.program = .ok p ∧ (p.checkInto (some .empty)).1 = .ok () ∧
      (p.checkInto (some .empty)).2 = some info ∧
      info = ⟨[([0, 1, 0, 0], .int), ([0, 0, 1], .int)], [([0, 0, 0], .int)]⟩ ∧
      p.declaration? [0, 1, 0, 0] "x" = some [0, 0, 0] ∧
      ∀ path, (info.typeOf? path).isSome = true ↔
        path ∈ (Node.program p).addresses ∧
          (∃ e, (Node.program p).at? path = some (.expr e)) ∧
          ¬ (Node.program p).ChildAt Node.target path := by
  have htokens : varPrint.tokens =
      .cons ⟨.keyword .varKw, ⟨"f", 1, 1⟩⟩ (.cons ⟨.name "x", ⟨"f", 1, 5⟩⟩
        (.cons ⟨.symbol .assign, ⟨"f", 1, 7⟩⟩ (.cons ⟨.num 1, ⟨"f", 1, 9⟩⟩
          (.cons ⟨.symbol .semi, ⟨"f", 1, 10⟩⟩ (.cons ⟨.keyword .printKw, ⟨"f", 1, 12⟩⟩
            (.cons ⟨.name "x", ⟨"f", 1, 18⟩⟩ (.eof ⟨"f", 1, 19⟩))))))) := by decide +kernel
  have hprogram := htokens ▸ TokenStream.program_varPrint
  obtain ⟨-, info, hinfo, hcomplete, -⟩ := Source.info_complete hprogram
  refine ⟨_, info, hprogram, rfl, hinfo, ?_, rfl, (hcomplete rfl).2.1⟩
  exact (Option.some.inj hinfo).symm

end PairDict
