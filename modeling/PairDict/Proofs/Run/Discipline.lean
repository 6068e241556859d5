import PairDict.Proofs.Run.Step
import PairDict.Proofs.Run.Visited
import PairDict.Proofs.Scope.Level

/-! # Scope discipline

Whatever is run or checked, from whatever scope, and however it ends, the scope that it
leaves has the frames that it was given (`Scope.Disciplined`):

* there are as many of them, and every frame that was closed had another around it;
* those around the innermost one bind the names that they bound;
* the innermost one has gained at most the names that the variable statements of the
  sequence declare, those of nested blocks not among them (`Seq.vars`);
* a binding has the value that it had, unless an assignment that was executed found just
  this binding, looking from the inside (`Exec.Writes`).

The checker keeps all this too, and assigns to nothing at all.

Frames are opened in two places, around a block and around a loop.  A loop writes to its own
frame when it binds its variable again, which is no assignment; the frame is not there any
more when the loop ends, so nothing is to be said of it (`Scope.Changes.framed`).  That it is
this frame and no other which the loop writes to holds because the variable is bound in it
from the first entry on, and no iteration takes a name away (`loop_changes`).
-/
namespace PairDict

variable {α σ β : Type}

/-! ## What may be declared -/

/-- The names that a statement declares in the frame in which it stands. -/
def Stmt.vars : Stmt α → List String
  | .var _ x _ => [x.name]
  | _ => []

/-- The names that the statements of a sequence declare in the frame in which they stand. -/
def Seq.vars (s : Seq α) : List String := s.stmts.flatMap Stmt.vars

/-- Whether a statement has others inside it. -/
def Stmt.isCompound : Stmt α → Bool
  | .var .. | .assign .. | .print .. => false
  | .ifThen .. | .ifElse .. | .forEach .. | .block .. => true

theorem Stmt.vars_of_isCompound {s : Stmt α} (h : s.isCompound = true) : s.vars = [] := by
  cases s with
  | var => cases h
  | _ => rfl

theorem Seq.vars_cons (a : α) (s : Stmt α) (rest : Seq α) :
    (Seq.cons a s rest).vars = s.vars ++ rest.vars := rfl

/-! ## What is assigned to, and what is closed -/

namespace Exec

/-- An assignment to `x` is executed in the run of a node, and finds `x` at level `i`. -/
def Writes (sink : Sink σ) (n : Node α) (m : Machine σ) (i : Nat) (x : String) : Prop :=
  ∃ path a y e m' v, Along (Calls sink) n m path (.stmt (.assign a y e)) m' ∧ y.name = x ∧
    e.eval m'.scope = .ok v ∧ Scope.home x m'.scope.frames = some i

/-- The scope of which a node closes the innermost frame: a block when its statements are
over, a loop when its iterations are. -/
inductive Closes (sink : Sink σ) : Node α → Machine σ → Scope Value → Prop where
  | block {b m} : Closes sink (.stmt (.block b)) m (after (seq sink b.body) (entered m)).scope
  | forEach {a x d b m dict} : d.eval m.scope = .ok (.dict dict) →
      Closes sink (.stmt (.forEach a x d b)) m
        (after (loop x (block sink b) false dict) (entered m)).scope

/-- A scope of which the innermost frame is closed in the run of a node. -/
def Closing (sink : Sink σ) (n : Node α) (m : Machine σ) (t : Scope Value) : Prop :=
  ∃ path n' m', Along (Calls sink) n m path n' m' ∧ Closes sink n' m' t

end Exec

namespace Check

/-- The scope of which the checker closes the innermost frame at a node. -/
inductive Closes : Node α → Scope Ty → Scope Ty → Prop where
  | block {b Γ} : Closes (.stmt (.block b)) Γ (seq Γ.enter b.body).scope
  | forEach {a x d b Γ t} : (expr Γ d).type = .ok (.dict t) →
      (declare Γ.enter x (Ty.entry t)).result = .ok () →
      Closes (.stmt (.forEach a x d b)) Γ (block (declare Γ.enter x (Ty.entry t)).scope b).scope
  | unbound {a x d b Γ t f} : (expr Γ d).type = .ok (.dict t) →
      (declare Γ.enter x (Ty.entry t)).result = .error f →
      Closes (.stmt (.forEach a x d b)) Γ (declare Γ.enter x (Ty.entry t)).scope

/-- A scope of which the innermost frame is closed when a node is checked. -/
def Closing (n : Node α) (Γ : Scope Ty) (t : Scope Ty) : Prop :=
  ∃ path n' Γ', Along Calls n Γ path n' Γ' ∧ Closes n' Γ' t

end Check

/-- The discipline, between a scope and the one that is left: what has changed is what may
change, and every frame that was closed had another around it. -/
structure Scope.Disciplined (vars : List String) (written : Nat → String → Prop)
    (closing : Scope β → Prop) (s s' : Scope β) : Prop extends Changes vars written s s' where
  /-- There are as many frames as there were. -/
  depth : s'.depth = s.depth
  /-- The frames that were closed could be closed. -/
  closed : ∀ t, closing t → ∃ t', t.leave? = some t'

namespace Exec

variable {γ : Type} {sink : Sink σ} {m m' : Machine σ} {n n' : Node α} {i j : Nat} {x y : String}
  {vars : List String} {written : Nat → String → Prop}

theorem Writes.of_call (h : Calls sink n m i n' m') (hw : Writes sink n' m' j y) :
    Writes sink n m j y := by
  obtain ⟨path, a, z, e, m₁, v, halong, hz⟩ := hw
  exact ⟨i :: path, a, z, e, m₁, v, .down h halong, hz⟩

/-! ## Steps -/

/-- What both steps have kept, the two together have. -/
theorem changes_bind {step : Run α σ β} {next : β → Run α σ γ}
    (h : Scope.Changes vars written m.scope (after step m).scope)
    (hnext : ∀ b m', step m = .ok b m' →
      Scope.Changes vars written m'.scope (after (next b) m').scope) :
    Scope.Changes vars written m.scope (after (step >>= next) m).scope := by
  cases hs : step m with
  | ok b m' =>
    rw [after_of_ok hs] at h
    rw [after, bind_of_ok hs]
    exact h.trans (hnext b m' hs)
  | error f m' =>
    rw [after_of_error hs] at h
    rw [after_of_error (bind_of_error hs)]
    exact h

/-- An expression changes nothing, so only what follows on its value matters. -/
theorem changes_value {e : Expr α} {next : Value → Run α σ γ}
    (hnext : ∀ v, e.eval m.scope = .ok v →
      Scope.Changes vars written m.scope (after (next v) m).scope) :
    Scope.Changes vars written m.scope (after (value e >>= next) m).scope := by
  cases he : e.eval m.scope with
  | ok v =>
    rw [after, bind_of_ok (value_of_ok he)]
    exact hnext v he
  | error f =>
    rw [after_of_error (bind_of_error (value_of_error he))]
    exact .refl ..

theorem after_rescope {a : α} {f : Scope Value → Except ScopeError (Scope Value)} :
    (∃ s, f m.scope = .ok s ∧ (after (rescope a f) m).scope = s) ∨ after (rescope a f) m = m := by
  unfold after rescope
  cases f m.scope with
  | ok s => exact .inl ⟨s, rfl, rfl⟩
  | error e => exact .inr rfl

theorem declare_changes (x : Ident α) (v : Value) :
    Scope.Changes [x.name] written m.scope (after (declare x v) m).scope := by
  rcases after_rescope (m := m) (a := x.ann) (f := (·.declare x.name v)) with ⟨s, hs, hafter⟩ | hsame
  · rw [declare, hafter]
    exact (Scope.Changes.declare hs).mono (fun _ h => h) (fun _ _ h => h.elim)
  · rw [declare, hsame]
    exact .refl ..

/-- An assignment changes the binding that it finds. -/
theorem assign_changes (x : Ident α) (v : Value) :
    Scope.Changes [] (fun i y => y = x.name ∧ Scope.home y m.scope.frames = some i) m.scope
      (after (assign x v) m).scope := by
  rcases after_rescope (m := m) (a := x.ann) (f := (·.update x.name v)) with ⟨s, hs, hafter⟩ | hsame
  · rw [assign, hafter]
    obtain ⟨i, hhome, hchanges⟩ := Scope.Changes.update hs
    refine hchanges.mono (fun _ h => h) ?_
    rintro j y ⟨rfl, rfl⟩
    exact ⟨rfl, hhome⟩
  · rw [assign, hsame]
    exact .refl ..

theorem emit_scope (a : α) (line : String) : (after (emit sink a line) m).scope = m.scope := by
  unfold after emit
  rcases sink.offer m.out line with ⟨out, _ | refusal⟩ <;> rfl

/-- A step in a frame of its own has kept what the step has kept in the frame. -/
theorem inFrame_changes {step : Run α σ Unit}
    (h : Scope.Changes vars written (entered m).scope (after step (entered m)).scope) :
    (∃ t, (after step (entered m)).scope.leave? = some t) ∧
      Scope.Changes [] (fun i x => i < m.scope.depth ∧ written i x) m.scope
        (after (inFrame step) m).scope := by
  obtain ⟨t, hleave, hchanges⟩ := h.framed
  refine ⟨⟨t, hleave⟩, ?_⟩
  rw [after_inFrame]
  show Scope.Changes _ _ _ (after step (entered m)).scope.leave
  rw [Scope.leave, hleave]
  exact hchanges

/-! ## Loops -/

/-- What has been declared is bound in the innermost frame. -/
theorem mem_inner_of_declare {x : Ident α} {v : Value} (h : declare x v m = .ok () m') :
    x.name ∈ m'.scope.inner.names := by
  unfold declare rescope at h
  dsimp only at h
  cases hs : m.scope.declare x.name v with
  | error e =>
    rw [hs] at h
    cases h
  | ok s =>
    rw [hs] at h
    cases h
    obtain ⟨-, rfl⟩ := Scope.declare_eq_ok_iff.1 hs
    exact List.mem_cons_self

/-- Binding the loop variable writes to the innermost frame at most, and the variable is
bound there afterwards. -/
theorem bindEntry_changes {x : Ident α} {bound : Bool} {k : Int64} {v : Value}
    (hbound : bound = true → x.name ∈ m.scope.inner.names)
    (hwritten : ∀ y, written m.scope.outer.length y) :
    Scope.Changes [x.name] written m.scope (after (bindEntry x bound k v) m).scope ∧
      ∀ m', bindEntry x bound k v m = .ok () m' → x.name ∈ m'.scope.inner.names := by
  cases bound with
  | true =>
    have hx : x.name ∈ m.scope.inner.names := hbound rfl
    have hchanges : Scope.Changes [x.name] written m.scope
        (after (assign x (.pair (.int k) v)) m).scope := by
      refine (assign_changes x _).mono (fun _ h => nomatch h) ?_
      rintro i y ⟨rfl, hhome⟩
      -- looking from the inside, the variable is found in the frame of the loop
      have hlevel : some m.scope.outer.length = some i :=
        (Scope.home_cons_of_mem hx).symm.trans hhome
      cases hlevel
      exact hwritten _
    refine ⟨hchanges, fun m' hm' => ?_⟩
    have hafter : after (assign x (.pair (.int k) v)) m = m' := after_of_ok hm'
    rw [← hafter]
    exact hchanges.mem_inner hx
  | false => exact ⟨declare_changes x _, fun m' hm' => mem_inner_of_declare hm'⟩

/-- **What every run of the body keeps, the loop keeps.**  The iterations write to the frame
of the loop, which is the innermost one. -/
theorem loop_changes {x : Ident α} {body : Run α σ Unit} :
    ∀ {dict : Dict} {bound : Bool} {m : Machine σ},
      (bound = true → x.name ∈ m.scope.inner.names) →
      (∀ y, written m.scope.outer.length y) →
      (∀ m', Iterates x body bound dict m m' →
        Scope.Changes [] written m'.scope (after body m').scope) →
      Scope.Changes [x.name] written m.scope (after (loop x body bound dict) m).scope
  | .nil, _, _, _, _, _ => .refl ..
  | .cons k v rest, bound, m, hbound, hwritten, hbody => by
    rw [loop_cons]
    obtain ⟨hbind, hmem⟩ := bindEntry_changes (k := k) (v := v) hbound hwritten
    refine changes_bind hbind fun _ m₁ h₁ => ?_
    have hrun : Scope.Changes [] written m₁.scope (after body m₁).scope := hbody m₁ (.here h₁)
    refine changes_bind (hrun.mono (fun _ h => nomatch h) fun _ _ h => h) fun _ m₂ h₂ => ?_
    rw [after_of_ok h₁] at hbind
    rw [after_of_ok h₂] at hrun
    -- the variable stays bound, and the frame of the loop stays at its level
    refine loop_changes (fun _ => hrun.mem_inner (hmem m₁ h₁)) ?_ ?_
    · intro y
      rw [hrun.length_outer, hbind.length_outer]
      exact hwritten y
    · intro m' h'
      exact hbody m' (.later h₁ h₂ h')

/-- The iterations of a loop statement, in the frame of the loop. -/
theorem forEach_changes {a : α} {x : Ident α} {d : Expr α} {b : Block α} {dict : Dict}
    (hd : d.eval m.scope = .ok (.dict dict))
    (hbody : ∀ m', Scope.Changes [] (Writes sink (.stmt (.block b)) m') m'.scope
      (after (block sink b) m').scope) :
    Scope.Changes [x.name]
      (fun i y => i = m.scope.depth ∨ Writes sink (.stmt (.forEach a x d b)) m i y)
      (entered m).scope (after (loop x (block sink b) false dict) (entered m)).scope := by
  refine loop_changes nofun (fun _ => .inl rfl) fun m' hiter => ?_
  refine (hbody m').mono (fun _ h => h) fun i y hw => .inr ?_
  exact hw.of_call (.forEachBody hd hiter)

/-! ## Statements -/

mutual

/-- **A statement changes what it may change**, however it ends. -/
theorem stmt_changes (sink : Sink σ) (m : Machine σ) : ∀ s : Stmt α,
    Scope.Changes s.vars (Writes sink (.stmt s) m) m.scope (after (stmt sink s) m).scope
  | .var a x e => by
    rw [stmt]
    exact changes_value fun v _ => declare_changes x v
  | .assign a x e => by
    rw [stmt]
    refine changes_value fun v hv => (assign_changes x v).mono (fun _ h => h) ?_
    rintro i y ⟨rfl, hhome⟩
    exact ⟨[], a, x, e, m, v, .here, rfl, hv, hhome⟩
  | .print a e => by
    rw [stmt]
    refine changes_value fun v _ => ?_
    rw [emit_scope]
    exact .refl ..
  | .ifThen a c b => by
    rw [stmt]
    refine changes_value fun v hv => ?_
    cases hc : Eval.needBool c.ann v with
    | error f => exact .refl ..
    | ok cond =>
      cases Eval.needBool_eq_ok hc
      cases cond with
      | false => exact .refl ..
      | true => exact (block_changes sink m b).mono (fun _ h => h) fun _ _ => .of_call (.ifThenYes hv)
  | .ifElse a c b b' => by
    rw [stmt]
    refine changes_value fun v hv => ?_
    cases hc : Eval.needBool c.ann v with
    | error f => exact .refl ..
    | ok cond =>
      cases Eval.needBool_eq_ok hc
      cases cond with
      | false => exact (block_changes sink m b').mono (fun _ h => h) fun _ _ => .of_call (.ifElseNo hv)
      | true => exact (block_changes sink m b).mono (fun _ h => h) fun _ _ => .of_call (.ifElseYes hv)
  | .forEach a x d b => by
    rw [stmt]
    refine changes_value fun v hv => ?_
    cases hd : Eval.needDict d.ann v with
    | error f => exact .refl ..
    | ok dict =>
      cases Eval.needDict_eq_ok hd
      refine (inFrame_changes (forEach_changes (a := a) hv fun m' => block_changes sink m' b)).2.mono (fun _ h => h) ?_
      -- the frame of the loop is not there any more
      rintro i y ⟨hi, hloop | hw⟩
      · exact absurd hi (hloop ▸ Nat.lt_irrefl _)
      · exact hw
  | .block b => by
    rw [stmt]
    exact block_changes sink m b

theorem block_changes (sink : Sink σ) (m : Machine σ) : ∀ b : Block α,
    Scope.Changes [] (Writes sink (.stmt (.block b)) m) m.scope (after (block sink b) m).scope
  | .mk a s close => by
    rw [block]
    refine (inFrame_changes (seq_changes sink (entered m) s)).2.mono (fun _ h => h) ?_
    rintro i y ⟨-, hw⟩
    exact hw.of_call .block

theorem seq_changes (sink : Sink σ) (m : Machine σ) : ∀ s : Seq α,
    Scope.Changes s.vars (Writes sink (.seq s) m) m.scope (after (seq sink s) m).scope
  | .empty a => .refl ..
  | .cons a s rest => by
    rw [seq, Seq.vars_cons]
    refine changes_bind ?_ fun _ m' hs => ?_
    · refine (stmt_changes sink m s).mono (fun _ h => List.mem_append_left _ h) ?_
      exact fun _ _ => .of_call .first
    · refine (seq_changes sink m' rest).mono (fun _ h => List.mem_append_right _ h) ?_
      exact fun _ _ => .of_call (.rest hs)

end

/-- A frame that is closed has another around it. -/
theorem Closes.leave? {t : Scope Value} (h : Closes sink n m t) : ∃ t', t.leave? = some t' := by
  cases h with
  | block => exact (inFrame_changes (seq_changes sink (entered m) _)).1
  | @forEach a x d b _ dict hd =>
    exact (inFrame_changes (forEach_changes (a := a) hd fun m' => block_changes sink m' b)).1

end Exec

namespace Check

variable {Γ : Scope Ty}

/-! ## The checker -/

theorem declare_changes (x : Ident α) (t : Ty) :
    Scope.Changes [x.name] (fun _ _ => False) Γ (declare Γ x t).scope := by
  unfold declare
  cases h : Γ.declare x.name t with
  | error e => exact .refl ..
  | ok Γ' => exact .declare h

/-- Only a variable statement leaves another scope than it was given. -/
theorem stmt_scope_of_vars (s : Stmt α) (h : s.vars = []) : (stmt Γ s).scope = Γ := by
  cases s with
  | var => cases h
  | assign a x e =>
    rw [stmt]
    cases lookup Γ x.ann x.name <;> rfl
  | print a e => rw [stmt]
  | ifThen a c b =>
    rw [stmt]
    cases ((expr Γ c).expect .bool).type with
    | error f => rfl
    | ok t => exact block_scope Γ b
  | ifElse a c b b' =>
    rw [stmt]
    cases ((expr Γ c).expect .bool).type with
    | error f => rfl
    | ok t =>
      simp only [block_scope Γ b]
      cases (block Γ b).result with
      | error f => rfl
      | ok u => exact block_scope Γ b'
  | forEach a x d b =>
    rw [stmt]
    generalize (do needDict (expr Γ d).tree.ann.ann (← (expr Γ d).type)) = r
    cases r with
    | error f => rfl
    | ok t =>
      have hout := declare_scope_outer Γ.enter x (Ty.entry t)
      simp only [block_scope, leave_eq_of_outer hout]
      cases (declare Γ.enter x (Ty.entry t)).result <;> rfl
  | block b =>
    rw [stmt]
    exact block_scope Γ b

/-- **Checking a statement only adds names**, however it ends. -/
theorem stmt_changes (Γ : Scope Ty) (s : Stmt α) :
    Scope.Changes s.vars (fun _ _ => False) Γ (stmt Γ s).scope := by
  cases s with
  | var a x e =>
    rw [stmt]
    cases (expr Γ e).type with
    | error f => exact .refl ..
    | ok t => exact declare_changes x t
  | _ =>
    rw [stmt_scope_of_vars _ rfl]
    exact .refl ..

theorem seq_changes (Γ : Scope Ty) : ∀ s : Seq α,
    Scope.Changes s.vars (fun _ _ => False) Γ (seq Γ s).scope
  | .empty a => .refl ..
  | .cons a s rest => by
    have hfirst : Scope.Changes (s.vars ++ rest.vars) (fun _ _ => False) Γ (stmt Γ s).scope :=
      (stmt_changes Γ s).mono (fun _ h => List.mem_append_left _ h) fun _ _ h => h
    rw [seq, Seq.vars_cons]
    cases (stmt Γ s).result with
    | error f => exact hfirst
    | ok u =>
      exact hfirst.trans ((seq_changes _ rest).mono (fun _ h => List.mem_append_right _ h)
        fun _ _ h => h)

/-- A frame that the checker closes has another around it. -/
theorem Closes.leave? {n : Node α} {t : Scope Ty} (h : Closes n Γ t) :
    ∃ t', t.leave? = some t' := by
  have hbound : ∀ (x : Ident α) u, ∃ t', (declare Γ.enter x u).scope.leave? = some t' := by
    intro x u
    obtain ⟨t', ht', -⟩ := (declare_changes (Γ := Γ.enter) x u).framed
    exact ⟨t', ht'⟩
  cases h with
  | block =>
    obtain ⟨t', ht', -⟩ := (seq_changes Γ.enter _).framed
    exact ⟨t', ht'⟩
  | forEach =>
    rw [block_scope]
    exact hbound ..
  | unbound => exact hbound ..

end Check

/-! ## The discipline -/

theorem Scope.Changes.disciplined {vars : List String} {written : Nat → String → Prop}
    {closing : Scope β → Prop} {s s' : Scope β} (h : Changes vars written s s')
    (hclosed : ∀ t, closing t → ∃ t', t.leave? = some t') :
    s.Disciplined vars written closing s' where
  toChanges := h
  depth := by rw [Scope.depth, Scope.depth, h.length_outer]
  closed := hclosed

/-- What has changed as it may, where there was nothing to declare, binds the same names. -/
theorem Scope.Changes.inner_eq_of_isCompound {s : Stmt α} {written : Nat → String → Prop}
    {Γ Γ' : Scope β} (h : Changes s.vars written Γ Γ') (hs : s.isCompound = true) :
    Γ'.inner.names = Γ.inner.names := by
  rw [Stmt.vars_of_isCompound hs] at h
  exact h.inner_eq

open Exec in
/-- **Scope discipline.**  Running and checking leave the frames that they were given,
whatever they are given, and wherever an error stops them.  Only variable statements declare
names, in the frame in which they stand; only assignments that are executed change a value,
of the binding that they find; and the checker never changes a type. -/
theorem Exec.scope_discipline (sink : Sink σ) (m : Machine σ) (Γ : Scope Ty) :
    (∀ s : Stmt α,
      m.scope.Disciplined s.vars (Writes sink (.stmt s) m) (Closing sink (.stmt s) m)
        (after (stmt sink s) m).scope ∧
      Γ.Disciplined s.vars (fun _ _ => False) (Check.Closing (.stmt s) Γ)
        (Check.stmt Γ s).scope ∧
      (s.isCompound = true →
        (after (stmt sink s) m).scope.inner.names = m.scope.inner.names ∧
        (Check.stmt Γ s).scope.inner.names = Γ.inner.names)) ∧
    ∀ s : Seq α,
      m.scope.Disciplined s.vars (Writes sink (.seq s) m) (Closing sink (.seq s) m)
        (after (seq sink s) m).scope ∧
      Γ.Disciplined s.vars (fun _ _ => False) (Check.Closing (.seq s) Γ)
        (Check.seq Γ s).scope := by
  have hrun : ∀ (n : Node α) t, Closing sink n m t → ∃ t', t.leave? = some t' := by
    rintro n t ⟨path, n', m', -, hcloses⟩
    exact hcloses.leave?
  have hcheck : ∀ (n : Node α) t, Check.Closing n Γ t → ∃ t', t.leave? = some t' := by
    rintro n t ⟨path, n', Γ', -, hcloses⟩
    exact hcloses.leave?
  refine ⟨fun s => ⟨?_, ?_, fun hs => ⟨?_, ?_⟩⟩, fun s => ⟨?_, ?_⟩⟩
  · exact (stmt_changes sink m s).disciplined (hrun _)
  · exact (Check.stmt_changes Γ s).disciplined (hcheck _)
  · exact (stmt_changes sink m s).inner_eq_of_isCompound hs
  · exact (Check.stmt_changes Γ s).inner_eq_of_isCompound hs
  · exact (seq_changes sink m s).disciplined (hrun _)
  · exact (Check.seq_changes Γ s).disciplined (hcheck _)

/-- A loop that assigns to `x` around it, declares an `x` of its own and stops at a name that
is not declared; its nodes are annotated with numbers. -/
def Stmt.abortedLoop : Stmt Nat :=
  .forEach 0 ⟨1, "k"⟩ (.entry 2 (.int 3 1) (.int 4 10))
    (.mk 5 (.cons 6 (.assign 7 ⟨8, "x"⟩ (.int 9 2))
      (.cons 10 (.var 11 ⟨12, "x"⟩ (.int 13 3))
        (.cons 14 (.print 15 (.name 16 "y")) (.empty 17)))) 18)

/-- A machine with an `x` inside another. -/
def Machine.shadowed (v : Int64) : Machine String :=
  ⟨⟨[("x", .int v)], [[("x", .int 0)]]⟩, ""⟩

open Exec in
/-- The loop does stop two frames deep, and leaves the two frames that it was given: of the
two bindings of `x` in them the inner one has changed, which was assigned to. -/
theorem Exec.scope_discipline_abortedLoop :
    stmt .all Stmt.abortedLoop (Machine.shadowed 1) =
        .error ⟨16, .scope (.undeclared "y")⟩ (Machine.shadowed 2) ∧
      Stmt.abortedLoop.isCompound = true ∧
      (after (stmt .all Stmt.abortedLoop) (Machine.shadowed 1)).scope.inner.names = ["x"] ∧
      (Machine.shadowed 1).scope.Disciplined [] (Writes .all (.stmt Stmt.abortedLoop) (.shadowed 1))
        (Closing .all (.stmt Stmt.abortedLoop) (.shadowed 1)) (Machine.shadowed 2).scope := by
  obtain ⟨hrun, -, hnames⟩ := (scope_discipline .all (.shadowed 1) .empty).1 Stmt.abortedLoop
  exact ⟨rfl, rfl, (hnames rfl).1, hrun⟩

end PairDict
