import PairDict.Proofs.Run.Soundness

/-! # Every point of a run, next to the check of that point

A running program reaches the nodes of its tree again and again, with a machine that
changes.  `Exec.Calls` says which children of a node are run or evaluated, and with
which machines, as the checker's `Check.Calls` says it of checking: the right operand
of `&&` is reached only if the left one is true, a branch only if its condition says
so, and the body of a loop once for each entry (`Exec.Iterates`).

The two are in lockstep: **whatever the run of an accepted program reaches, the checker
has been there**, its scope had the frames that the running scope has, and what it
recorded at an expression is true of every value that the expression ever has
(`Program.run_lockstep`).  A node is checked once and may be reached many times, so the
scope of the checker depends on the address alone, and the running scope does not.
-/
namespace PairDict

variable {α σ : Type}

/-! ## Where a run goes -/

namespace Eval

/-- The operands that are evaluated when an expression is, by their numbers.  A
premise is what has to have come out before. -/
inductive Operand (s : Scope Value) : Expr α → Nat → Expr α → Prop where
  | pairLeft {a x y} : Operand s (.pair a x y) 0 x
  | pairRight {a x y u} : x.eval s = .ok u → Operand s (.pair a x y) 1 y
  | unary {a op x} : op ∈ Token.unaryOps → Operand s (.unary a op x) 0 x
  | binaryLeft {a op x y} : op ∈ Token.binaryOps → Operand s (.binary a op x y) 0 x
  | addRight {a x y n} : x.eval s = .ok (.int n) → Operand s (.binary a (.symbol .plus) x y) 1 y
  | mulRight {a x y n} : x.eval s = .ok (.int n) → Operand s (.binary a (.symbol .star) x y) 1 y
  | andRight {a x y} : x.eval s = .ok (.bool true) →
      Operand s (.binary a (.symbol .andAnd) x y) 1 y
  | eqlRight {a x y u} : x.eval s = .ok u → Operand s (.binary a (.symbol .eql) x y) 1 y
  | entryKey {a k v} : Operand s (.entry a k v) 0 k
  | entryValue {a k v n} : k.eval s = .ok (.int n) → Operand s (.entry a k v) 1 v
  | selectBase {a op d k} : Operand s (.select a op d k) 0 d
  | selectKey {a op d k dict} : d.eval s = .ok (.dict dict) → Operand s (.select a op d k) 1 k
  | createKey {a d k v} : Operand s (.store a .create d k v) 1 k
  | createValue {a d k v n} : k.eval s = .ok (.int n) → Operand s (.store a .create d k v) 2 v
  | storeBase {a op d k v} : op ≠ .create → Operand s (.store a op d k v) 0 d
  | storeKey {a op d k v dict} : op ≠ .create → d.eval s = .ok (.dict dict) →
      Operand s (.store a op d k v) 1 k
  | updateValue {a d k v dict n} : d.eval s = .ok (.dict dict) → k.eval s = .ok (.int n) →
      Operand s (.store a .update d k v) 2 v

end Eval

namespace Exec

/-- The machines with which a loop starts its body, when the entries that are left
are those of a dictionary; `bound` says whether the loop variable is declared yet. -/
inductive Iterates (x : Ident α) (body : Run α σ Unit) :
    Bool → Dict → Machine σ → Machine σ → Prop where
  | here {bound k v rest m m'} : bindEntry x bound k v m = .ok () m' →
      Iterates x body bound (.cons k v rest) m m'
  | later {bound k v rest m m₁ m₂ m'} : bindEntry x bound k v m = .ok () m₁ →
      body m₁ = .ok () m₂ → Iterates x body true rest m₂ m' →
      Iterates x body bound (.cons k v rest) m m'

/-- The machine with a new innermost frame. -/
abbrev entered (m : Machine σ) : Machine σ := { m with scope := m.scope.enter }

/-- The children that are run or evaluated when a node is, by their numbers, and the
machines with which they are.  A premise is what has to have come out before. -/
inductive Calls (sink : Sink σ) : Node α → Machine σ → Nat → Node α → Machine σ → Prop where
  | program {p m} : Calls sink (.program p) m 0 (.seq p.body) ⟨.empty, m.out⟩
  | first {a s rest m} : Calls sink (.seq (.cons a s rest)) m 0 (.stmt s) m
  | rest {a s rest m m'} : stmt sink s m = .ok () m' →
      Calls sink (.seq (.cons a s rest)) m 1 (.seq rest) m'
  | var {a x e m} : Calls sink (.stmt (.var a x e)) m 1 (.expr e) m
  | assign {a x e m} : Calls sink (.stmt (.assign a x e)) m 1 (.expr e) m
  | print {a e m} : Calls sink (.stmt (.print a e)) m 0 (.expr e) m
  | ifThenCond {a c b m} : Calls sink (.stmt (.ifThen a c b)) m 0 (.expr c) m
  | ifThenYes {a c b m} : c.eval m.scope = .ok (.bool true) →
      Calls sink (.stmt (.ifThen a c b)) m 1 (.stmt (.block b)) m
  | ifElseCond {a c b b' m} : Calls sink (.stmt (.ifElse a c b b')) m 0 (.expr c) m
  | ifElseYes {a c b b' m} : c.eval m.scope = .ok (.bool true) →
      Calls sink (.stmt (.ifElse a c b b')) m 1 (.stmt (.block b)) m
  | ifElseNo {a c b b' m} : c.eval m.scope = .ok (.bool false) →
      Calls sink (.stmt (.ifElse a c b b')) m 2 (.stmt (.block b')) m
  | forEachDict {a x d b m} : Calls sink (.stmt (.forEach a x d b)) m 1 (.expr d) m
  | forEachBody {a x d b m dict m'} : d.eval m.scope = .ok (.dict dict) →
      Iterates x (block sink b) false dict (entered m) m' →
      Calls sink (.stmt (.forEach a x d b)) m 2 (.stmt (.block b)) m'
  | block {b m} : Calls sink (.stmt (.block b)) m 0 (.seq b.body) (entered m)
  | operand {e i e' m} : Eval.Operand m.scope e i e' → Calls sink (.expr e) m i (.expr e') m

end Exec

/-! ## Scopes that correspond -/

/-- A scope of types and a scope of values correspond: they are equally deep, their
frames bind the same names, and what a frame of values binds a name to inhabits the
type to which the frame of types at the same depth binds it. -/
structure Scope.Corresponds (Γ : Scope Ty) (s : Scope Value) : Prop where
  depth : s.depth = Γ.depth
  names : s.frames.map Frame.names = Γ.frames.map Frame.names
  values : ∀ (i : Nat) (f : Frame Ty) (g : Frame Value) (x : String) (v : Value),
    Γ.frames[i]? = some f → s.frames[i]? = some g → g.get? x = some v →
      ∃ t, f.get? x = some t ∧ Inhabits v t

theorem Agree.inhabits {f : Frame Ty} {g : Frame Value} {x : String} {v : Value} (h : Agree f g)
    (hx : g.get? x = some v) : ∃ t, f.get? x = some t ∧ Inhabits v t := by
  cases ht : f.get? x with
  | none =>
    rw [h.get?_eq_none ht] at hx
    cases hx
  | some t =>
    obtain ⟨w, hw, hwt⟩ := h.get?_eq_some ht
    rw [hw] at hx
    cases hx
    exact ⟨t, rfl, hwt⟩

theorem Lockstep.names_eq {Γ : List (Frame Ty)} {fs : List (Frame Value)} (h : Lockstep Γ fs) :
    fs.map Frame.names = Γ.map Frame.names := by
  induction h with
  | nil => rfl
  | cons hf _ ih => exact congrArg₂ List.cons hf.names_eq.symm ih

theorem Lockstep.corresponds {Γ : Scope Ty} {s : Scope Value} (h : Lockstep Γ.frames s.frames) :
    Γ.Corresponds s where
  depth := by
    have hlen := h.length_eq
    simp only [Scope.frames, List.length_cons] at hlen
    exact hlen.symm
  names := h.names_eq
  values := by
    intro i f g x v hf hg hx
    obtain ⟨hi, rfl⟩ := List.getElem?_eq_some_iff.1 hf
    obtain ⟨hi', rfl⟩ := List.getElem?_eq_some_iff.1 hg
    exact (h.get hi hi').inhabits hx

/-! ## One call -/

/-- What is evaluated is an operand, and not an idle one. -/
theorem Eval.Operand.child {s : Scope Value} {e e' : Expr α} {i : Nat}
    (h : Eval.Operand s e i e') :
    (Node.expr e).children[i]? = some (.expr e') ∧ (Node.expr e).idle i = false := by
  cases h with
  | storeBase hop =>
    refine ⟨rfl, ?_⟩
    unfold Node.idle
    split <;> simp_all
  | @storeKey _ op => cases op <;> exact ⟨rfl, rfl⟩
  | _ => exact ⟨rfl, rfl⟩

/-- What holds of a good outcome holds of this one. -/
theorem Ends.of_eq_ok {β : Type} {r : EStateM.Result (Fault α) (Machine σ) β}
    {good : β → Machine σ → Prop} {bad : Fault α → Prop} {b : β} {m : Machine σ}
    (h : Ends r good bad) (hr : r = .ok b m) : good b m := by
  rw [hr] at h
  exact h

namespace Exec

variable {sink : Sink σ}

/-- **Every iteration of a loop starts in lockstep** with the frame of the loop. -/
theorem Iterates.inStep {Γ : List (Frame Ty)} {x : Ident α} {body : Run α σ Unit} {bound : Bool}
    {dict : Dict} {t : Ty} {m m' : Machine σ} {bad : Fault α → Prop}
    (h : Iterates x body bound dict m m')
    (hbody : ∀ m, InStep (loopFrame x t :: Γ) m →
      Ends (body m) (fun _ m' => InStep (loopFrame x t :: Γ) m') bad)
    (hdict : ∀ b ∈ dict.toList, Inhabits b.2 t)
    (hm : InStep ((if bound then loopFrame x t else []) :: Γ) m) :
    InStep (loopFrame x t :: Γ) m' := by
  induction h with
  | @here bound k v rest m m' hbind =>
    have hv : Inhabits v t := hdict (k, v) List.mem_cons_self
    have hfirst : Ends (bindEntry x bound k v m) _ bad := bindEntry_ends hv hm
    exact hfirst.of_eq_ok hbind
  | @later bound k v rest m m₁ m₂ m' hbind hrun _ ih =>
    have hv : Inhabits v t := hdict (k, v) List.mem_cons_self
    have hfirst : Ends (bindEntry x bound k v m) _ bad := bindEntry_ends hv hm
    have h₁ : InStep (loopFrame x t :: Γ) m₁ := hfirst.of_eq_ok hbind
    have h₂ : InStep (loopFrame x t :: Γ) m₂ := (hbody m₁ h₁).of_eq_ok hrun
    exact ih (fun b hb => hdict b (List.mem_cons_of_mem _ hb)) h₂

/-- A node with the machine that reaches it and the scope that the checker had there. -/
structure Met (n : Node α) (m : Machine σ) (Γ : Scope Ty) : Prop where
  typed : n.Typed Γ.frames
  inStep : InStep Γ.frames m

/-- What is run or evaluated is a child, and not an idle one. -/
theorem Calls.child {n n' : Node α} {m m' : Machine σ} {i : Nat} (h : Calls sink n m i n' m') :
    n.children[i]? = some n' ∧ n.idle i = false := by
  cases h with
  | operand h => exact h.child
  | _ => exact ⟨rfl, rfl⟩

/-- **One call of the run is one call of the check.** -/
theorem Calls.checked {n n' : Node α} {m m' : Machine σ} {Γ : Scope Ty} {i : Nat}
    (hmet : Met n m Γ) (h : Calls sink n m i n' m') :
    ∃ Γ', Check.Calls n Γ i n' Γ' ∧ Met n' m' Γ' := by
  obtain ⟨ht, hm⟩ := hmet
  -- the checker goes there too, and it determines the scope; what is left is lockstep
  obtain ⟨hchild, hidle⟩ := h.child
  obtain ⟨Γ', hcall⟩ := Check.Calls.total ht hidle hchild
  refine ⟨Γ', hcall, hcall.typed ht, ?_⟩
  cases h with
  | program =>
    cases hcall
    exact .cons .nil .nil
  | rest hrun =>
    cases hcall
    obtain ⟨_, hs⟩ := ht
    cases hs with
    | cons hs _ => exact (Check.stmt_typed_iff.1 hs).2 ▸ (stmt_ends hs hm).of_eq_ok hrun
  | ifElseNo _ =>
    cases hcall
    rw [Check.block_scope]
    exact hm
  | forEachBody hd hiter =>
    cases hcall with
    | forEachBody htype _ =>
      obtain ⟨_, hs⟩ := ht
      cases hs with
      | forEach hd' hb =>
        -- the values of the entries have the type for which the body was checked
        rw [Check.expr_type_eq_ok_iff.2 hd'] at htype
        cases htype
        have hv := Expr.eval_yields hm hd'
        rw [hd] at hv
        obtain ⟨_, hval, hdict⟩ := Inhabits.dict_inv hv
        cases hval
        rw [Check.declare_scope rfl]
        exact hiter.inStep (Γ := Γ.frames) (fun m₁ h₁ => block_ends hb h₁) hdict hm.enter
  | block =>
    cases hcall
    exact hm.enter
  | operand h =>
    cases hcall
    exact hm
  | _ =>
    cases hcall
    exact hm

/-- From a point that both have met, every point that the run reaches is met. -/
theorem Calls.met {n n' : Node α} {m m' : Machine σ} {Γ : Scope Ty} {path : List Nat}
    (hmet : Met n m Γ) (h : Along (Calls sink) n m path n' m') :
    ∃ Γ', Along Check.Calls n Γ path n' Γ' ∧ Met n' m' Γ' :=
  Along.simulate (R := Met) Calls.checked hmet h

end Exec

/-! ## Every point of a run -/

/-- **The run of an accepted program is in lockstep with its check.**  Wherever the run
gets to, and however often it gets there, the checker has been at that address, in a
scope that depends on the address alone; the running scope corresponds to it; and if
the run is at an expression that has a value, the checked tree records a type at that
address which the value inhabits. -/
theorem Program.run_lockstep (p : Program α) (sink : Sink σ) (out : σ) (hp : p.check.1 = .ok ())
    {path : List Nat} {n : Node α} {m : Machine σ}
    (h : Along (Exec.Calls sink) (.program p) ⟨.empty, out⟩ path n m) :
    ∃ Γ, Along Check.Calls (.program p) .empty path n Γ ∧
      (∀ n' Γ', Along Check.Calls (.program p) .empty path n' Γ' → n' = n ∧ Γ' = Γ) ∧
      Γ.Corresponds m.scope ∧
      ∀ e v, n = .expr e → e.eval m.scope = .ok v →
        ∃ e' t, (Node.program p.check.2).at? path = some (.expr e') ∧ e'.map Note.ann = e ∧
          e'.ann.type = some t ∧ Inhabits v t := by
  have htyped : (Node.program p).Typed (Scope.frames .empty) := check_eq_ok_iff.1 hp
  have hstart : Exec.InStep (Scope.frames .empty) (⟨.empty, out⟩ : Machine σ) := .cons .nil .nil
  obtain ⟨Γ, hΓ, hmet⟩ := Exec.Calls.met ⟨htyped, hstart⟩ h
  refine ⟨Γ, hΓ, fun n' Γ' h' => h'.unique (fun h₁ h₂ => h₁.det h₂) hΓ, hmet.inStep.corresponds, ?_⟩
  rintro e v rfl hv
  obtain ⟨⟨t, ht⟩, hat⟩ := Check.visited htyped hΓ
  refine ⟨_, t, hat, Check.expr_tree_map_ann Γ e, ?_, ?_⟩
  · rw [Check.expr_tree_ann, Check.expr_type_eq_ok_iff.2 ht]
    rfl
  · have hyield := Expr.eval_yields hmet.inStep ht
    rw [hv] at hyield
    exact hyield

/-- A program that prints the values of a dictionary of two entries, one by one; its
nodes are annotated with numbers. -/
def Program.printValues : Program Nat :=
  ⟨0, .cons 1 (.forEach 2 ⟨3, "x"⟩
    (.store 4 .update (.entry 5 (.int 6 1) (.int 7 10)) (.int 8 2) (.int 9 20))
    (.mk 10 (.cons 11 (.print 12 (.unary 13 (.keyword .snd) (.name 14 "x"))) (.empty 15)) 16))
    (.empty 17)⟩

/-- The machine of `printValues` when it prints for the second time. -/
def Machine.secondEntry : Machine String :=
  ⟨⟨[], [[("x", .pair (.int 2) (.int 20))], []]⟩, "10\n"⟩

/-- The program is accepted, it does get to its second entry, and what it prints then
inhabits the type that was recorded once. -/
theorem Program.run_lockstep_printValues :
    printValues.check.1 = .ok () ∧
      Along (Exec.Calls .all) (.program printValues) ⟨.empty, ""⟩ [0, 0, 2, 0, 0, 0]
        (.expr (.unary 13 (.keyword .snd) (.name 14 "x"))) .secondEntry ∧
      ∃ Γ, Along Check.Calls (.program printValues) .empty [0, 0, 2, 0, 0, 0]
          (.expr (.unary 13 (.keyword .snd) (.name 14 "x"))) Γ ∧
        Γ.Corresponds Machine.secondEntry.scope ∧
        ∃ e' t, (Node.program printValues.check.2).at? [0, 0, 2, 0, 0, 0] = some (.expr e') ∧
          e'.ann.type = some t ∧ Inhabits (.int 20) t := by
  have hreach : Along (Exec.Calls .all) (.program printValues) ⟨.empty, ""⟩ [0, 0, 2, 0, 0, 0]
      (.expr (.unary 13 (.keyword .snd) (.name 14 "x"))) .secondEntry :=
    .down .program <| .down .first <|
      .down (.forEachBody rfl (.later rfl rfl (.here rfl))) <|
        .down .block <| .down .first <| .down .print .here
  obtain ⟨Γ, hΓ, -, hcorr, hvalue⟩ := run_lockstep printValues .all "" rfl hreach
  obtain ⟨e', t, hat, -, htype, hinh⟩ := hvalue _ (.int 20) rfl rfl
  exact ⟨rfl, hreach, Γ, hΓ, hcorr, e', t, hat, htype, hinh⟩

end PairDict
