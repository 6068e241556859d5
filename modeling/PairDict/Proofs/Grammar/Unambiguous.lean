import PairDict.Proofs.Grammar.Derivation

/-! # The grammar is unambiguous

Two derivations that one stream spells are compared from left to right: they are the same
derivation and end at the same place, if what follows each of them does not continue it.

A level groups to the left, so two expressions on one level may start alike and then go
on differently long: `x + y` and `x + y + z` both start with `x + y`.  What can be said of
them is that **one of them continues the other** by further operators of the level
(`Level.Continues`, `Level.comparable`), and that they are the same as soon as no operator
of the level follows (`Comparable.eq`).
-/
namespace PairDict

namespace Grammar

/-! ## Continuations -/

/-- The expression `e` is `d` with further operators of the same level, and their right
operands, after it; `ws` are the words of these. -/
inductive Level.Continues {n : Nat} : Level n → List Word → Level n → Prop where
  | refl {d} : Continues d [] d
  | step {op x y ws e} (h : operators[n]? = some op) : Continues (.binary h x y) ws e →
      Continues x (.symbol op :: (y.words ++ ws)) e

namespace Level.Continues

variable {n : Nat} {d e : Level n} {ws : List Word} {s r : TokenStream}

/-- A continuation can be continued by one more operator. -/
theorem snoc {op : Symbol} {y : Level (n + 1)} (hop : operators[n]? = some op)
    (h : d.Continues ws e) : d.Continues (ws ++ .symbol op :: y.words) (.binary hop e y) := by
  induction h with
  | @refl d =>
    have hstep : d.Continues (.symbol op :: (y.words ++ [])) (.binary hop d y) := .step hop .refl
    rw [List.append_nil] at hstep
    exact hstep
  | step hop' _ ih =>
    rw [List.cons_append, List.append_assoc]
    exact .step hop' ih

/-- What continues an expression that ends in an operator ends in one. -/
theorem binary_inv {op : Symbol} {hop : operators[n]? = some op} {x : Level n}
    {y z : Level (n + 1)} (h : (Level.binary hop x y).Continues ws e) : e ≠ .tighter z := by
  generalize hd : Level.binary hop x y = d at h
  induction h generalizing op x y with
  | refl =>
    rw [← hd]
    exact nofun
  | step hop' _ ih => exact ih rfl

/-- An expression without an operator of its level continues itself only. -/
theorem of_tighter {z : Level (n + 1)} (h : d.Continues ws (.tighter z)) :
    d = .tighter z ∧ ws = [] := by
  cases h with
  | refl => exact ⟨rfl, rfl⟩
  | step hop h => exact absurd rfl h.binary_inv

/-- There is no continuation where no operator of the level follows. -/
theorem eq_of_le (h : d.Continues ws e) (hs : Spells ws s r) (hle : s.token.precedence ≤ n) :
    d = e ∧ s = r := by
  cases h with
  | refl => exact ⟨rfl, hs⟩
  | @step op _ _ _ _ hop h =>
    obtain ⟨p, t, rfl, -⟩ := hs
    have hprec : (Token.symbol op).precedence = n + 1 := precedence_of_operator hop
    have hle' : (Token.symbol op).precedence ≤ n := hle
    omega

/-- A continuation is followed by what its expression is followed by, or by itself. -/
theorem follows (h : d.Continues ws e) (hs : Spells ws s r) (hr : Follows n r) : Follows n s := by
  cases h with
  | refl => exact hs ▸ hr
  | step hop h =>
    obtain ⟨p, t, rfl, -⟩ := hs
    exact follows_operator hop

end Level.Continues

/-- Of two expressions from the same place on, which end at `r` and at `r'`, one continues
the other. -/
def Comparable {n : Nat} (d d' : Level n) (r r' : TokenStream) : Prop :=
  (∃ ws, d.Continues ws d' ∧ Spells ws r r') ∨ ∃ ws, d'.Continues ws d ∧ Spells ws r' r

theorem Comparable.eq {n : Nat} {d d' : Level n} {r r' : TokenStream} (h : Comparable d d' r r')
    (hr : r.token.precedence ≤ n) (hr' : r'.token.precedence ≤ n) : d = d' ∧ r = r' := by
  rcases h with ⟨ws, hd, hs⟩ | ⟨ws, hd, hs⟩
  · exact hd.eq_of_le hs hr
  · obtain ⟨rfl, rfl⟩ := hd.eq_of_le hs hr'
    exact ⟨rfl, rfl⟩

/-- Two expressions from the same place on are the same if nothing continues them. -/
theorem Comparable.close {d d' : Expression} {r r' : TokenStream}
    (h : Follows 0 r → Follows 0 r' → Comparable d d' r r') (hr : Closed r) (hr' : Closed r') :
    d = d' ∧ r = r' :=
  (h (hr.follows 0) (hr'.follows 0)).eq (Nat.le_of_eq hr.1) (Nat.le_of_eq hr'.1)

/-- The levels end at the fifth. -/
theorem Level.le_five : ∀ {n : Nat}, Level n → n ≤ 5
  | _, .prefixed _ => Nat.le_refl _
  | _, .tighter x => Nat.le_of_succ_le x.le_five
  | _, .binary _ x _ => x.le_five

/-- An expression without an operator of its level is comparable to all that start where it
does, if its operand is. -/
theorem comparable_tighter {s r : TokenStream} : ∀ {n : Nat} {x : Level (n + 1)},
    (∀ {x' : Level (n + 1)} {r' : TokenStream}, Spells x'.words s r' → Follows (n + 1) r' →
      Comparable x x' r r') →
    Follows n r → ∀ {d' : Level n} {r' : TokenStream}, Spells d'.words s r' → Follows n r' →
      Comparable (.tighter x) d' r r'
  | _, x, _, _, .prefixed _, r', hs', hr' => absurd x.le_five (by decide)
  | _, x, hx, hr, .tighter x', r', hs', hr' => by
    obtain ⟨rfl, rfl⟩ := (hx hs' hr'.tighter).eq hr.1 hr'.1
    exact .inl ⟨[], .refl, rfl⟩
  | n, x, hx, hr, .binary hop x' y', r', hs', hr' => by
    obtain ⟨t, hx', hy'⟩ := Spells.append_iff.1 hs'
    have ht : Follows n t := by
      obtain ⟨p, t', rfl, -⟩ := hy'
      exact follows_operator hop
    rcases comparable_tighter hx hr hx' ht with ⟨ws, hd, hs⟩ | ⟨ws, hd, hs⟩
    · exact .inl ⟨_, hd.snoc hop, Spells.append_iff.2 ⟨t, hs, hy'⟩⟩
    · -- the left operand has no operator of the level, so it is the whole of the other
      obtain ⟨rfl, rfl⟩ := hd.of_tighter
      cases hs
      exact .inl ⟨_, Level.Continues.refl.snoc hop, hy'⟩

/-- An expression that ends in an operator of its level is comparable to all to which its
operands are. -/
theorem comparable_binary {n : Nat} {op : Symbol} (hop : operators[n]? = some op) {x d' : Level n}
    {y : Level (n + 1)} {p : Pos} {t r r' : TokenStream}
    (hx : Comparable x d' (.cons ⟨.symbol op, p⟩ t) r')
    (hy : ∀ {y' : Level (n + 1)} {u : TokenStream}, Spells y'.words t u → Follows (n + 1) u →
      Comparable y y' r u)
    (hs : Spells y.words t r) (hr : Follows n r) (hr' : Follows n r') :
    Comparable (.binary hop x y) d' r r' := by
  have hsy : Spells (.symbol op :: y.words) (.cons ⟨.symbol op, p⟩ t) r := ⟨p, t, rfl, hs⟩
  rcases hx with ⟨ws, hd, hws⟩ | ⟨ws, hd, hws⟩
  · cases hd with
    | refl =>
      cases hws
      exact .inr ⟨_, Level.Continues.refl.snoc hop, hsy⟩
    | @step op' _ y' ws' _ hop' hd =>
      -- the other goes on with an operator too: it is the same, and so is its right operand
      obtain ⟨_, _, hcons, hws⟩ := hws
      cases hcons
      obtain ⟨u, hy', hu⟩ := Spells.append_iff.1 hws
      have hfollows : Follows n u := hd.follows hu hr'
      obtain ⟨rfl, rfl⟩ := (hy hy' hfollows.tighter).eq hr.1 hfollows.1
      exact .inl ⟨ws', hd, hu⟩
  · exact .inr ⟨_, hd.snoc hop, Spells.append_iff.2 ⟨_, hws, hsy⟩⟩

/-! ## Expressions -/

mutual

/-- **Of two expressions on one level that start at the same place, one continues the
other.** -/
theorem Level.comparable : ∀ {n : Nat} (d : Level n) {d' : Level n} {s r r' : TokenStream},
    Spells d.words s r → Spells d'.words s r' → Follows n r → Follows n r' →
    Comparable d d' r r'
  | _, .prefixed x, .prefixed x', s, r, r', hs, hs', hr, hr' => by
    obtain ⟨rfl, rfl⟩ := x.unique hs hs' hr.2 hr'.2
    exact .inl ⟨[], .refl, rfl⟩
  | _, .prefixed x, .tighter x', s, r, r', hs, hs', hr, hr' => absurd x'.le_five (by decide)
  | _, .tighter x, d', s, r, r', hs, hs', hr, hr' =>
    comparable_tighter (fun hsx hrx => x.comparable hs hsx hr.tighter hrx) hr hs' hr'
  | _, .binary hop x y, d', s, r, r', hs, hs', hr, hr' => by
    obtain ⟨_, hx, p, t, rfl, hy⟩ := Spells.append_iff.1 hs
    exact comparable_binary hop (x.comparable hx hs' (follows_operator hop) hr')
      (fun hsy hry => y.comparable hy hsy hr.tighter hry) hy hr hr'
termination_by structural _ d => d

theorem Prefixed.unique : ∀ (d : Prefixed) {d' : Prefixed} {s r r' : TokenStream},
    Spells d.words s r → Spells d'.words s r' → r.token ≠ .symbol .lbrack →
    r'.token ≠ .symbol .lbrack → d = d' ∧ r = r'
  | .bare x, .bare x', s, r, r', hs, hs', hr, hr' => by
    obtain ⟨rfl, rfl⟩ := x.unique hs hs' hr hr'
    exact ⟨rfl, rfl⟩
  | .bare x, .applied op hop x', s, r, r', hs, hs', hr, hr' => by
    obtain ⟨w, p, t, rfl, hw, -⟩ := Postfixed.front hs
    obtain ⟨_, _, h, -⟩ := hs'
    cases h
    exact absurd hop hw
  | .applied op hop x, .bare x', s, r, r', hs, hs', hr, hr' => by
    obtain ⟨w, p, t, rfl, hw, -⟩ := Postfixed.front hs'
    obtain ⟨_, _, h, -⟩ := hs
    cases h
    exact absurd hop hw
  | .applied op hop x, .applied op' hop' x', s, r, r', hs, hs', hr, hr' => by
    obtain ⟨p, t, rfl, hx⟩ := hs
    obtain ⟨_, _, h, hx'⟩ := hs'
    cases h
    obtain ⟨rfl, rfl⟩ := x.unique hx hx' hr hr'
    exact ⟨rfl, rfl⟩
termination_by structural d => d

theorem Postfixed.unique : ∀ (d : Postfixed) {d' : Postfixed} {s r r' : TokenStream},
    Spells d.words s r → Spells d'.words s r' → r.token ≠ .symbol .lbrack →
    r'.token ≠ .symbol .lbrack → d = d' ∧ r = r'
  | .mk base suffixes, .mk base' suffixes', s, r, r', hs, hs', hr, hr' => by
    obtain ⟨t, hbase, hsuffixes⟩ := Spells.append_iff.1 hs
    obtain ⟨t', hbase', hsuffixes'⟩ := Spells.append_iff.1 hs'
    obtain ⟨rfl, rfl⟩ := base.unique hbase hbase'
    obtain ⟨rfl, rfl⟩ := suffixes.unique hsuffixes hsuffixes' hr hr'
    exact ⟨rfl, rfl⟩
termination_by structural d => d

theorem Suffixes.unique : ∀ (d : Suffixes) {d' : Suffixes} {s r r' : TokenStream},
    Spells d.words s r → Spells d'.words s r' → r.token ≠ .symbol .lbrack →
    r'.token ≠ .symbol .lbrack → d = d' ∧ r = r'
  | .nil, .nil, s, r, r', hs, hs', hr, hr' => by
    cases hs
    cases hs'
    exact ⟨rfl, rfl⟩
  | .nil, .cons k' slot' rest', s, r, r', hs, hs', hr, hr' => by
    cases hs
    obtain ⟨p, t, rfl, -⟩ := hs'
    exact absurd rfl hr
  | .cons k slot rest, .nil, s, r, r', hs, hs', hr, hr' => by
    cases hs'
    obtain ⟨p, t, rfl, -⟩ := hs
    exact absurd rfl hr'
  | .cons k slot rest, .cons k' slot' rest', s, r, r', hs, hs', hr, hr' => by
    simp only [Suffixes.words, Spells.cons_iff, Spells.append_iff] at hs hs'
    obtain ⟨p, t, rfl, t₁, hk, _, hslot, q, t₂, rfl, hrest⟩ := hs
    obtain ⟨_, _, hcons, t₁', hk', _, hslot', q', t₂', rfl, hrest'⟩ := hs'
    cases hcons
    obtain ⟨rfl, rfl⟩ :=
      Comparable.close (k.comparable hk hk') (Slot.closed hslot) (Slot.closed hslot')
    obtain ⟨rfl, rfl⟩ := slot.unique hslot hslot'
    obtain ⟨rfl, rfl⟩ := rest.unique hrest hrest' hr hr'
    exact ⟨rfl, rfl⟩
termination_by structural d => d

theorem Slot.unique : ∀ (d : Slot) {d' : Slot} {s r r' : TokenStream} {q q' : Pos},
    Spells d.words s (.cons ⟨.symbol .rbrack, q⟩ r) →
    Spells d'.words s (.cons ⟨.symbol .rbrack, q'⟩ r') → d = d' ∧ r = r'
  | .get, d', s, r, r', q, q', hs, hs' => by
    cases hs
    cases d' with
    | get =>
      cases hs'
      exact ⟨rfl, rfl⟩
    | delete | update v' =>
      obtain ⟨_, _, hcons, -⟩ := hs'
      cases hcons
  | .delete, d', s, r, r', q, q', hs, hs' => by
    obtain ⟨p, _, rfl, rfl⟩ := hs
    cases d' with
    | get => cases hs'
    | delete =>
      obtain ⟨_, _, hcons, hafter⟩ := hs'
      cases hcons
      cases hafter
      exact ⟨rfl, rfl⟩
    | update v' =>
      obtain ⟨_, _, hcons, hv'⟩ := hs'
      cases hcons
      exact absurd rfl (Level.front hv')
  | .update v, d', s, r, r', q, q', hs, hs' => by
    obtain ⟨p, t, rfl, hv⟩ := hs
    cases d' with
    | get => cases hs'
    | delete =>
      obtain ⟨_, _, hcons, hafter⟩ := hs'
      cases hcons
      cases hafter
      exact absurd rfl (Level.front hv)
    | update v' =>
      obtain ⟨_, _, hcons, hv'⟩ := hs'
      cases hcons
      obtain ⟨rfl, hafter⟩ := Comparable.close (v.comparable hv hv') ⟨rfl, nofun⟩ ⟨rfl, nofun⟩
      cases hafter
      exact ⟨rfl, rfl⟩
termination_by structural d => d

theorem Atom.unique : ∀ (d : Atom) {d' : Atom} {s r r' : TokenStream},
    Spells d.words s r → Spells d'.words s r' → d = d' ∧ r = r'
  | .entry k v, d', s, r, r', hs, hs' => by
    simp only [Atom.words, Spells.cons_iff, Spells.append_iff, Spells.nil_iff] at hs
    obtain ⟨p, t, rfl, _, hk, q, t₁, rfl, _, hv, q₁, _, rfl, rfl⟩ := hs
    cases d' with
    | entry k' v' =>
      simp only [Atom.words, Spells.cons_iff, Spells.append_iff, Spells.nil_iff] at hs'
      obtain ⟨_, _, hcons, _, hk', q', t₁', rfl, _, hv', q₁', _, rfl, rfl⟩ := hs'
      cases hcons
      obtain ⟨rfl, hafter⟩ := Comparable.close (k.comparable hk hk') ⟨rfl, nofun⟩ ⟨rfl, nofun⟩
      cases hafter
      obtain ⟨rfl, hafter⟩ := Comparable.close (v.comparable hv hv') ⟨rfl, nofun⟩ ⟨rfl, nofun⟩
      cases hafter
      exact ⟨rfl, rfl⟩
    | bool b | num n | name x | paren x =>
      obtain ⟨_, _, hcons, -⟩ := hs'
      cases hcons
  | .bool b, d', s, r, r', hs, hs' => by
    obtain ⟨p, _, rfl, rfl⟩ := hs
    cases d' <;> obtain ⟨_, _, hcons, hr⟩ := hs' <;> cases hcons
    exact ⟨rfl, hr⟩
  | .num n, d', s, r, r', hs, hs' => by
    obtain ⟨p, _, rfl, rfl⟩ := hs
    cases d' <;> obtain ⟨_, _, hcons, hr⟩ := hs' <;> cases hcons
    exact ⟨rfl, hr⟩
  | .name x, d', s, r, r', hs, hs' => by
    obtain ⟨p, _, rfl, rfl⟩ := hs
    cases d' <;> obtain ⟨_, _, hcons, hr⟩ := hs' <;> cases hcons
    exact ⟨rfl, hr⟩
  | .paren x, d', s, r, r', hs, hs' => by
    simp only [Atom.words, Spells.cons_iff, Spells.append_iff, Spells.nil_iff] at hs
    obtain ⟨p, t, rfl, _, hx, q, _, rfl, rfl⟩ := hs
    cases d' with
    | paren x' =>
      simp only [Atom.words, Spells.cons_iff, Spells.append_iff, Spells.nil_iff] at hs'
      obtain ⟨_, _, hcons, _, hx', q', _, rfl, rfl⟩ := hs'
      cases hcons
      obtain ⟨rfl, hafter⟩ := Comparable.close (x.comparable hx hx') ⟨rfl, nofun⟩ ⟨rfl, nofun⟩
      cases hafter
      exact ⟨rfl, rfl⟩
    | entry k v | bool b | num n | name x' =>
      obtain ⟨_, _, hcons, -⟩ := hs'
      cases hcons
termination_by structural d => d

end

theorem Expression.unique {d d' : Expression} {s r r' : TokenStream} (hs : Spells d.words s r)
    (hs' : Spells d'.words s r') (hr : Closed r) (hr' : Closed r') : d = d' ∧ r = r' :=
  Comparable.close (Level.comparable d hs hs') hr hr'

/-! ## Statements -/

mutual

theorem Statement.unique : ∀ (d : Statement) {d' : Statement} {s r r' : TokenStream},
    Spells d.words s r → Spells d'.words s r' → EndsStatement r → EndsStatement r' →
    d = d' ∧ r = r'
  | .var x e, d', s, r, r', hs, hs', hr, hr' => by
    obtain ⟨p, _, rfl, q, _, rfl, q', t, rfl, he⟩ := hs
    cases d' with
    | var x' e' =>
      obtain ⟨_, _, hcons, _, _, rfl, _, _, rfl, he'⟩ := hs'
      cases hcons
      obtain ⟨rfl, rfl⟩ := Expression.unique he he' hr.closed hr'.closed
      exact ⟨rfl, rfl⟩
    | _ =>
      obtain ⟨_, _, hcons, -⟩ := hs'
      cases hcons
  | .assign x e, d', s, r, r', hs, hs', hr, hr' => by
    obtain ⟨p, _, rfl, q, t, rfl, he⟩ := hs
    cases d' with
    | assign x' e' =>
      obtain ⟨_, _, hcons, _, _, rfl, he'⟩ := hs'
      cases hcons
      obtain ⟨rfl, rfl⟩ := Expression.unique he he' hr.closed hr'.closed
      exact ⟨rfl, rfl⟩
    | _ =>
      obtain ⟨_, _, hcons, -⟩ := hs'
      cases hcons
  | .print e, d', s, r, r', hs, hs', hr, hr' => by
    obtain ⟨p, t, rfl, he⟩ := hs
    cases d' with
    | print e' =>
      obtain ⟨_, _, hcons, he'⟩ := hs'
      cases hcons
      obtain ⟨rfl, rfl⟩ := Expression.unique he he' hr.closed hr'.closed
      exact ⟨rfl, rfl⟩
    | _ =>
      obtain ⟨_, _, hcons, -⟩ := hs'
      cases hcons
  | .ifThen c b, d', s, r, r', hs, hs', hr, hr' => by
    simp only [Statement.words, Spells.cons_iff, Spells.append_iff] at hs
    obtain ⟨p, _, rfl, q, t, rfl, _, hc, q', t₁, rfl, hb⟩ := hs
    cases d' with
    | ifThen c' b' =>
      simp only [Statement.words, Spells.cons_iff, Spells.append_iff] at hs'
      obtain ⟨_, _, hcons, _, _, rfl, _, hc', _, _, rfl, hb'⟩ := hs'
      cases hcons
      obtain ⟨rfl, hafter⟩ := Expression.unique hc hc' ⟨rfl, nofun⟩ ⟨rfl, nofun⟩
      cases hafter
      obtain ⟨rfl, rfl⟩ := b.unique hb hb'
      exact ⟨rfl, rfl⟩
    | ifElse c' b' b₂' =>
      simp only [Statement.words, Spells.cons_iff, Spells.append_iff] at hs'
      obtain ⟨_, _, hcons, _, _, rfl, _, hc', _, _, rfl, _, hb', _, _, rfl, -⟩ := hs'
      cases hcons
      obtain ⟨-, hafter⟩ := Expression.unique hc hc' ⟨rfl, nofun⟩ ⟨rfl, nofun⟩
      cases hafter
      -- an `else` after the block would belong to the shorter statement
      obtain ⟨-, rfl⟩ := b.unique hb hb'
      exact absurd rfl hr.not_else
    | _ =>
      obtain ⟨_, _, hcons, -⟩ := hs'
      cases hcons
  | .ifElse c b b₂, d', s, r, r', hs, hs', hr, hr' => by
    simp only [Statement.words, Spells.cons_iff, Spells.append_iff] at hs
    obtain ⟨p, _, rfl, q, t, rfl, _, hc, q', t₁, rfl, _, hb, q'', t₂, rfl, hb₂⟩ := hs
    cases d' with
    | ifThen c' b' =>
      simp only [Statement.words, Spells.cons_iff, Spells.append_iff] at hs'
      obtain ⟨_, _, hcons, _, _, rfl, _, hc', _, _, rfl, hb'⟩ := hs'
      cases hcons
      obtain ⟨-, hafter⟩ := Expression.unique hc hc' ⟨rfl, nofun⟩ ⟨rfl, nofun⟩
      cases hafter
      obtain ⟨-, rfl⟩ := b.unique hb hb'
      exact absurd rfl hr'.not_else
    | ifElse c' b' b₂' =>
      simp only [Statement.words, Spells.cons_iff, Spells.append_iff] at hs'
      obtain ⟨_, _, hcons, _, _, rfl, _, hc', _, _, rfl, _, hb', _, _, rfl, hb₂'⟩ := hs'
      cases hcons
      obtain ⟨rfl, hafter⟩ := Expression.unique hc hc' ⟨rfl, nofun⟩ ⟨rfl, nofun⟩
      cases hafter
      obtain ⟨rfl, hafter⟩ := b.unique hb hb'
      cases hafter
      obtain ⟨rfl, rfl⟩ := b₂.unique hb₂ hb₂'
      exact ⟨rfl, rfl⟩
    | _ =>
      obtain ⟨_, _, hcons, -⟩ := hs'
      cases hcons
  | .forEach x d b, d', s, r, r', hs, hs', hr, hr' => by
    simp only [Statement.words, Spells.cons_iff, Spells.append_iff] at hs
    obtain ⟨p, _, rfl, _, _, rfl, _, _, rfl, _, _, rfl, _, t₁, rfl, _, hd, _, t₂, rfl, hb⟩ := hs
    cases d' with
    | forEach x' d' b' =>
      simp only [Statement.words, Spells.cons_iff, Spells.append_iff] at hs'
      obtain ⟨_, _, hcons, _, _, rfl, _, _, rfl, _, _, rfl, _, _, rfl, _, hd', _, _, rfl, hb'⟩ :=
        hs'
      cases hcons
      obtain ⟨rfl, hafter⟩ := Expression.unique hd hd' ⟨rfl, nofun⟩ ⟨rfl, nofun⟩
      cases hafter
      obtain ⟨rfl, rfl⟩ := b.unique hb hb'
      exact ⟨rfl, rfl⟩
    | _ =>
      obtain ⟨_, _, hcons, -⟩ := hs'
      cases hcons
termination_by structural d => d

theorem Braces.unique : ∀ (d : Braces) {d' : Braces} {s r r' : TokenStream},
    Spells d.words s r → Spells d'.words s r' → d = d' ∧ r = r'
  | .mk body, .mk body', s, r, r', hs, hs' => by
    simp only [Braces.words, Spells.cons_iff, Spells.append_iff, Spells.nil_iff] at hs hs'
    obtain ⟨p, t, rfl, _, hbody, q, _, rfl, rfl⟩ := hs
    obtain ⟨_, _, hcons, _, hbody', q', _, rfl, rfl⟩ := hs'
    cases hcons
    obtain ⟨rfl, hafter⟩ := body.unique hbody hbody' (.inl rfl) (.inl rfl)
    cases hafter
    exact ⟨rfl, rfl⟩
termination_by structural d => d

theorem Sequence.unique : ∀ (d : Sequence) {d' : Sequence} {s r r' : TokenStream},
    Spells d.words s r → Spells d'.words s r' → EndsSequence r → EndsSequence r' →
    d = d' ∧ r = r'
  | .last c, d', s, r, r', hs, hs', hr, hr' => by
    cases d' with
    | last c' =>
      obtain ⟨rfl, rfl⟩ := c.unique hs hs' (.inr hr) (.inr hr')
      exact ⟨rfl, rfl⟩
    | trailing c' | more c' rest' =>
      obtain ⟨_, hc', _, _, rfl, -⟩ := Spells.append_iff.1 hs'
      obtain ⟨-, rfl⟩ := c.unique hs hc' (.inr hr) (.inl rfl)
      exact absurd rfl hr.not_semi
  | .trailing c, d', s, r, r', hs, hs', hr, hr' => by
    obtain ⟨_, hc, p, _, rfl, rfl⟩ := Spells.append_iff.1 hs
    cases d' with
    | last c' =>
      obtain ⟨-, rfl⟩ := c.unique hc hs' (.inl rfl) (.inr hr')
      exact absurd rfl hr'.not_semi
    | trailing c' =>
      obtain ⟨_, hc', _, _, rfl, rfl⟩ := Spells.append_iff.1 hs'
      obtain ⟨rfl, hafter⟩ := c.unique hc hc' (.inl rfl) (.inl rfl)
      cases hafter
      exact ⟨rfl, rfl⟩
    | more c' rest' =>
      obtain ⟨_, hc', _, _, rfl, hrest'⟩ := Spells.append_iff.1 hs'
      obtain ⟨-, hafter⟩ := c.unique hc hc' (.inl rfl) (.inl rfl)
      cases hafter
      exact absurd hr (Sequence.front hrest')
  | .more c rest, d', s, r, r', hs, hs', hr, hr' => by
    obtain ⟨_, hc, p, t, rfl, hrest⟩ := Spells.append_iff.1 hs
    cases d' with
    | last c' =>
      obtain ⟨-, rfl⟩ := c.unique hc hs' (.inl rfl) (.inr hr')
      exact absurd rfl hr'.not_semi
    | trailing c' =>
      obtain ⟨_, hc', _, _, rfl, rfl⟩ := Spells.append_iff.1 hs'
      obtain ⟨-, hafter⟩ := c.unique hc hc' (.inl rfl) (.inl rfl)
      cases hafter
      exact absurd hr' (Sequence.front hrest)
    | more c' rest' =>
      obtain ⟨_, hc', _, _, rfl, hrest'⟩ := Spells.append_iff.1 hs'
      obtain ⟨rfl, hafter⟩ := c.unique hc hc' (.inl rfl) (.inl rfl)
      cases hafter
      obtain ⟨rfl, rfl⟩ := rest.unique hrest hrest' hr hr'
      exact ⟨rfl, rfl⟩
termination_by structural d => d

end

/-- **Words determine a derivation.** -/
theorem Sequence.words_injective {d d' : Sequence} (h : d.words = d'.words) : d = d' := by
  obtain ⟨s, hs⟩ := Spells.exists_stream d.words (.eof .none)
  exact (d.unique hs (h ▸ hs) (.inr rfl) (.inr rfl)).1

end Grammar

end PairDict
