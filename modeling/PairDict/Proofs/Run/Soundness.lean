import PairDict.Proofs.Run.Lockstep
import PairDict.Proofs.Tree.Address
import PairDict.Proofs.Typing.Recorded
import PairDict.Run.Exec

/-! # Accepted programs do not go wrong

A program that the checker accepts can stop early for two reasons only: it looks up
or deletes a key that a dictionary does not have, or its output refuses a line
(`Program.run_of_check`).

The proof follows the typing rules.  `Yields` says of the outcome of an expression,
and `Ends` of that of a statement, what holds of a good outcome and what holds of a
fault; both are carried through a sequence of steps by one lemma each.  An
expression of type `t` yields values of type `t`, and a statement that leads from
the frames `Γ` to the frames `Γ'` leads from scopes in lockstep with `Γ` to scopes
in lockstep with `Γ'`.  The faults that are left are traced to the node they come
from: `Fault.MissesIn` and `Fault.RefusedIn`.

A loop runs its body many times and the checker checks it once.  The invariant that
carries the loop is that the frame of its variable agrees with the frame that the
checker used, which is true as soon as the variable is bound and stays true when it
is bound again.
-/
namespace PairDict

variable {α σ : Type}

/-! ## Outcomes -/

/-- What holds of a value, and what holds of an error. -/
def Yields {ε β : Type} (r : Except ε β) (good : β → Prop) (bad : ε → Prop) : Prop :=
  match r with
  | .ok b => good b
  | .error e => bad e

namespace Yields

variable {ε β γ : Type} {r : Except ε β} {f : β → Except ε γ} {good : β → Prop}
  {good' : γ → Prop} {bad bad' : ε → Prop}

theorem bind (h : Yields r good bad) (hf : ∀ b, good b → Yields (f b) good' bad) :
    Yields (r >>= f) good' bad := by
  cases r with
  | ok b => exact hf b h
  | error e => exact h

theorem weaken (h : Yields r good bad) (hbad : ∀ e, bad e → bad' e) : Yields r good bad' := by
  cases r with
  | ok b => exact h
  | error e => exact hbad e h

end Yields

/-- What holds of the machine after a step, and what holds of a fault. -/
def Ends {β : Type} (r : EStateM.Result (Fault α) (Machine σ) β) (good : β → Machine σ → Prop)
    (bad : Fault α → Prop) : Prop :=
  match r with
  | .ok b m => good b m
  | .error f _ => bad f

namespace Ends

variable {β γ : Type} {step : Run α σ β} {next : β → Run α σ γ} {m : Machine σ}
  {good good' : β → Machine σ → Prop} {after : γ → Machine σ → Prop} {bad bad' : Fault α → Prop}

theorem bind (h : Ends (step m) good bad)
    (hnext : ∀ b m', good b m' → Ends (next b m') after bad) :
    Ends ((step >>= next) m) after bad := by
  show Ends (EStateM.bind step next m) after bad
  unfold EStateM.bind
  cases hs : step m with
  | ok b m' =>
    rw [hs] at h
    exact hnext b m' h
  | error f m' =>
    rw [hs] at h
    exact h

theorem imp (h : Ends (step m) good bad) (hgood : ∀ b m', good b m' → good' b m')
    (hbad : ∀ f, bad f → bad' f) : Ends (step m) good' bad' := by
  cases hs : step m with
  | ok b m' =>
    rw [hs] at h
    exact hgood b m' h
  | error f m' =>
    rw [hs] at h
    exact hbad f h

theorem weaken (h : Ends (step m) good bad) (hbad : ∀ f, bad f → bad' f) :
    Ends (step m) good bad' :=
  h.imp (fun _ _ hm => hm) hbad

end Ends

/-! ## The faults that are left -/

/-- The key that has to be in the dictionary: that of a lookup or a deletion. -/
def Expr.neededKey? : Expr α → Option (Expr α)
  | .select _ .get _ k | .select _ .delete _ k => some k
  | .store _ .get _ k _ | .store _ .delete _ k _ => some k
  | _ => none

/-- A refusal that the sink gives for some line, whatever it remembers. -/
def Sink.Refuses (sink : Sink σ) (refusal : String) : Prop :=
  ∃ s line, (sink.offer s line).2 = some refusal

namespace Fault

/-- The fault is a missing key, at the key of a lookup or a deletion in `n`. -/
def MissesIn (n : Node α) (f : Fault α) : Prop :=
  ∃ e k key, .expr e ∈ n.walk (fun _ => true) ∧ e.neededKey? = some k ∧
    f = ⟨k.ann, .missingKey key⟩

/-- The fault is a refusal of the sink, at a statement in `n` that prints. -/
def RefusedIn (sink : Sink σ) (n : Node α) (f : Fault α) : Prop :=
  ∃ a e refusal, .stmt (.print a e) ∈ n.walk (fun _ => true) ∧ sink.Refuses refusal ∧
    f = ⟨a, .write refusal⟩

end Fault

namespace Fault

/-- The fault is one of the two that are left. -/
def AllowedIn (sink : Sink σ) (n : Node α) (f : Fault α) : Prop :=
  f.MissesIn n ∨ f.RefusedIn sink n

variable {n c : Node α} {f : Fault α} {sink : Sink σ}

theorem MissesIn.of_child (hc : c ∈ n.children) : f.MissesIn c → f.MissesIn n := by
  rintro ⟨e, k, key, he, hk, rfl⟩
  exact ⟨e, k, key, Node.mem_walk_of_child hc he, hk, rfl⟩

theorem RefusedIn.of_child (hc : c ∈ n.children) : f.RefusedIn sink c → f.RefusedIn sink n := by
  rintro ⟨a, e, refusal, he, hr, rfl⟩
  exact ⟨a, e, refusal, Node.mem_walk_of_child hc he, hr, rfl⟩

theorem AllowedIn.of_child (hc : c ∈ n.children) (h : f.AllowedIn sink c) : f.AllowedIn sink n :=
  h.imp (.of_child hc) (.of_child hc)

end Fault

/-! ## Expressions -/

section Expressions

variable {Γ : List (Frame Ty)} {s : Scope Value}

theorem Eval.fetch_yields {e k : Expr α} {d : Dict} {key : Int64} {t : Ty}
    (hk : e.neededKey? = some k) (hd : ∀ b ∈ d.toList, Inhabits b.2 t) :
    Yields (fetch k.ann d key) (Inhabits · t) (·.MissesIn (.expr e)) := by
  unfold fetch
  cases hv : d.get? key with
  | some v => exact hd _ (Dict.mem_toList_of_get? hv)
  | none => exact ⟨e, k, key, Node.mem_walk_self _, hk, rfl⟩

theorem Eval.remove_yields {e k : Expr α} {d : Dict} {key : Int64} {t : Ty}
    (hk : e.neededKey? = some k) (hd : ∀ b ∈ d.toList, Inhabits b.2 t) :
    Yields (remove k.ann d key) (Inhabits · (.dict t)) (·.MissesIn (.expr e)) :=
  (fetch_yields hk hd).bind fun _ _ => .erase hd

/-- What an operand yields, its faults seen from the node that it is an operand of. -/
theorem Yields.operand {β : Type} {r : Except (Fault α) β} {good : β → Prop} {e x : Expr α}
    (h : Yields r good (·.MissesIn (.expr x))) (hx : .expr x ∈ (Node.expr e).children) :
    Yields r good (·.MissesIn (.expr e)) :=
  h.weaken fun _ => .of_child hx

/-- **Evaluation keeps types.**  In a scope in lockstep with its frames an expression
of type `t` has a value of type `t`, or misses a key. -/
theorem Expr.eval_yields {e : Expr α} {t : Ty} (hs : Lockstep Γ s.frames) (h : HasType Γ e t) :
    Yields (e.eval s) (Inhabits · t) (·.MissesIn (.expr e)) := by
  induction h with
  | name hx =>
    obtain ⟨v, hv, hvt⟩ := hs.lookup hx
    rw [eval, hv]
    exact hvt
  | int => exact .int
  | bool => exact .bool
  | pair _ _ ihx ihy =>
    rw [eval]
    refine (ihx.operand (by simp [Node.children])).bind fun u hu => ?_
    refine (ihy.operand (by simp [Node.children])).bind fun v hv => ?_
    exact .pair hu hv
  | neg _ ih =>
    rw [eval]
    refine (ih.operand (by simp [Node.children])).bind fun v hv => ?_
    obtain ⟨n, rfl⟩ := hv.int_inv
    exact .int
  | not _ ih =>
    rw [eval]
    refine (ih.operand (by simp [Node.children])).bind fun v hv => ?_
    obtain ⟨b, rfl⟩ := hv.bool_inv
    exact .bool
  | fst _ ih =>
    rw [eval]
    refine (ih.operand (by simp [Node.children])).bind fun v hv => ?_
    obtain ⟨x, y, rfl, hx, -⟩ := hv.pair_inv
    exact hx
  | snd _ ih =>
    rw [eval]
    refine (ih.operand (by simp [Node.children])).bind fun v hv => ?_
    obtain ⟨x, y, rfl, -, hy⟩ := hv.pair_inv
    exact hy
  | add _ _ ihx ihy | mul _ _ ihx ihy =>
    rw [eval]
    refine (ihx.operand (by simp [Node.children])).bind fun u hu => ?_
    obtain ⟨m, rfl⟩ := hu.int_inv
    refine (ihy.operand (by simp [Node.children])).bind fun v hv => ?_
    obtain ⟨n, rfl⟩ := hv.int_inv
    exact .int
  | and _ _ ihx ihy =>
    rw [eval]
    refine (ihx.operand (by simp [Node.children])).bind fun u hu => ?_
    obtain ⟨b, rfl⟩ := hu.bool_inv
    -- the right operand is looked at only if the left one is true
    cases b with
    | false => exact .bool
    | true =>
      refine (ihy.operand (by simp [Node.children])).bind fun v hv => ?_
      obtain ⟨c, rfl⟩ := hv.bool_inv
      exact .bool
  | eql _ _ ihx ihy =>
    rw [eval]
    refine (ihx.operand (by simp [Node.children])).bind fun u _ => ?_
    refine (ihy.operand (by simp [Node.children])).bind fun v _ => ?_
    exact .bool
  | entry _ _ ihk ihv | storeCreate _ _ ihk ihv =>
    rw [eval]
    refine (ihk.operand (by simp [Node.children])).bind fun u hu => ?_
    obtain ⟨key, rfl⟩ := hu.int_inv
    refine (ihv.operand (by simp [Node.children])).bind fun v hv => ?_
    exact .insert (fun b hb => absurd hb Dict.not_mem_toList_empty) hv
  | get _ _ ihd ihk | storeGet _ _ ihd ihk =>
    rw [eval]
    refine (ihd.operand (by simp [Node.children])).bind fun u hu => ?_
    obtain ⟨d, rfl, hd⟩ := hu.dict_inv
    refine (ihk.operand (by simp [Node.children])).bind fun v hv => ?_
    obtain ⟨key, rfl⟩ := hv.int_inv
    exact Eval.fetch_yields rfl hd
  | delete _ _ ihd ihk | storeDelete _ _ ihd ihk =>
    rw [eval]
    refine (ihd.operand (by simp [Node.children])).bind fun u hu => ?_
    obtain ⟨d, rfl, hd⟩ := hu.dict_inv
    refine (ihk.operand (by simp [Node.children])).bind fun v hv => ?_
    obtain ⟨key, rfl⟩ := hv.int_inv
    exact Eval.remove_yields rfl hd
  | storeUpdate _ _ _ ihd ihk ihv =>
    rw [eval]
    refine (ihd.operand (by simp [Node.children])).bind fun u hu => ?_
    obtain ⟨d, rfl, hd⟩ := hu.dict_inv
    refine (ihk.operand (by simp [Node.children])).bind fun v hv => ?_
    obtain ⟨key, rfl⟩ := hv.int_inv
    refine (ihv.operand (by simp [Node.children])).bind fun w hw => ?_
    exact .insert hd hw

end Expressions

/-! ## Statements -/

namespace Exec

variable {Γ : List (Frame Ty)} {sink : Sink σ} {m : Machine σ} {bad : Fault α → Prop}

/-- The condition of the machine that a statement needs and re-establishes. -/
abbrev InStep (Γ : List (Frame Ty)) (m : Machine σ) : Prop := Lockstep Γ m.scope.frames

theorem value_ends {e : Expr α} {n : Node α} {t : Ty} (hm : InStep Γ m) (he : HasType Γ e t)
    (hc : .expr e ∈ n.children) :
    Ends (value e m) (fun v m' => m' = m ∧ Inhabits v t) (·.AllowedIn sink n) := by
  have h := Expr.eval_yields hm he
  unfold value
  cases hv : e.eval m.scope with
  | ok v =>
    rw [hv] at h
    exact ⟨rfl, h⟩
  | error f =>
    rw [hv] at h
    exact .inl (.of_child hc h)

theorem declare_ends {f : Frame Ty} {x : Ident α} {v : Value} {t : Ty} (hm : InStep (f :: Γ) m)
    (hx : f.get? x.name = none) (hv : Inhabits v t) :
    Ends (declare x v m) (fun _ m' => InStep (((x.name, t) :: f) :: Γ) m') bad := by
  obtain ⟨s', hs', h'⟩ := hm.declare hx hv
  rw [declare, rescope, hs']
  exact h'

theorem assign_ends {x : Ident α} {v : Value} {t : Ty} (hm : InStep Γ m)
    (hx : Binds Γ x.name t) (hv : Inhabits v t) :
    Ends (assign x v m) (fun _ m' => InStep Γ m') bad := by
  obtain ⟨s', hs', h'⟩ := hm.update hx hv
  rw [assign, rescope, hs']
  exact h'

theorem emit_ends {a : α} {e : Expr α} {line : String} (hm : InStep Γ m) :
    Ends (emit sink a line m) (fun _ m' => InStep Γ m')
      (·.AllowedIn sink (.stmt (.print a e))) := by
  unfold emit
  cases ho : sink.offer m.out line with
  | mk out refusal =>
    cases refusal with
    | none => exact hm
    | some refusal =>
      exact .inr ⟨a, e, refusal, Node.mem_walk_self _, ⟨m.out, line, by rw [ho]⟩, rfl⟩

/-- A step in a frame of its own only has to keep the frames around it. -/
theorem inFrame_ends {step : Run α σ Unit} (hm : InStep Γ m)
    (h : Ends (step { m with scope := m.scope.enter })
      (fun _ m' => ∃ f, InStep (f :: Γ) m') bad) :
    Ends (inFrame step m) (fun _ m' => InStep Γ m') bad := by
  -- there is a frame around the one that is closed, since a scope has at least one
  have hne : Γ ≠ [] := by
    rintro rfl
    cases hm
  unfold inFrame
  cases hs : step { m with scope := m.scope.enter } with
  | ok u m' =>
    rw [hs] at h
    obtain ⟨f, h⟩ := h
    exact h.leave hne
  | error f m' =>
    rw [hs] at h
    exact h

/-- The frame of a loop variable, as the checker has it. -/
abbrev loopFrame (x : Ident α) (t : Ty) : Frame Ty := [(x.name, .pair .int t)]

/-- Bind the loop variable to an entry: for the first time, or again. -/
def bindEntry (x : Ident α) (bound : Bool) (k : Int64) (v : Value) : Run α σ Unit :=
  if bound then assign x (.pair (.int k) v) else declare x (.pair (.int k) v)

theorem loop_cons (x : Ident α) (body : Run α σ Unit) (bound : Bool) (k : Int64) (v : Value)
    (rest : Dict) :
    loop x body bound (.cons k v rest) = (do
      bindEntry x bound k v
      body
      loop x body true rest) := by
  cases bound <;> rfl

/-- Binding the loop variable gives the frame of the loop, whether it is bound for
the first time or again. -/
theorem bindEntry_ends {x : Ident α} {bound : Bool} {k : Int64} {v : Value} {t : Ty}
    (hv : Inhabits v t) (hm : InStep ((if bound then loopFrame x t else []) :: Γ) m) :
    Ends (bindEntry x bound k v m) (fun _ m' => InStep (loopFrame x t :: Γ) m') bad := by
  have hpair : Inhabits (.pair (.int k) v) (.pair .int t) := .pair .int hv
  cases bound with
  | true => exact assign_ends hm (.here (Frame.get?_cons_self _)) hpair
  | false => exact declare_ends hm rfl hpair

/-- **What one run of the body keeps, every number of runs keeps.** -/
theorem loop_ends {x : Ident α} {body : Run α σ Unit} {t : Ty}
    (hbody : ∀ m, InStep (loopFrame x t :: Γ) m →
      Ends (body m) (fun _ m' => InStep (loopFrame x t :: Γ) m') bad) :
    ∀ {d : Dict} {bound : Bool} {m : Machine σ}, (∀ b ∈ d.toList, Inhabits b.2 t) →
      InStep ((if bound then loopFrame x t else []) :: Γ) m →
      Ends (loop x body bound d m) (fun _ m' => ∃ f, InStep (f :: Γ) m') bad
  | .nil, _, _, _, hm => ⟨_, hm⟩
  | .cons k v rest, bound, m, hd, hm => by
    rw [loop_cons]
    have hv : Inhabits v t := hd (k, v) List.mem_cons_self
    have hrest : ∀ b ∈ rest.toList, Inhabits b.2 t := fun b hb => hd b (List.mem_cons_of_mem _ hb)
    refine (bindEntry_ends hv hm).bind fun _ m₁ h₁ => ?_
    refine (hbody m₁ h₁).bind fun _ m₂ h₂ => ?_
    -- from here on the variable is bound again for every entry
    exact loop_ends hbody hrest h₂

mutual

/-- **A well-typed statement leads from lockstep to lockstep**, or stops for one of
the two reasons that are left. -/
theorem stmt_ends {Γ Γ' : List (Frame Ty)} {m : Machine σ} :
    ∀ {s : Stmt α}, Stmt.Typed Γ s Γ' → InStep Γ m →
      Ends (stmt sink s m) (fun _ m' => InStep Γ' m') (·.AllowedIn sink (.stmt s))
  | .var a x e, .var he hx, hm => by
    rw [stmt]
    refine (value_ends hm he (by simp [Node.children])).bind ?_
    rintro v m' ⟨rfl, hv⟩
    exact declare_ends hm hx hv
  | .assign a x e, .assign hx he, hm => by
    rw [stmt]
    refine (value_ends hm he (by simp [Node.children])).bind ?_
    rintro v m' ⟨rfl, hv⟩
    exact assign_ends hm hx hv
  | .print a e, .print he, hm => by
    rw [stmt]
    refine (value_ends hm he (by simp [Node.children])).bind ?_
    rintro v m' ⟨rfl, hv⟩
    exact emit_ends hm
  | .ifThen a c b, .ifThen hc hb, hm => by
    rw [stmt]
    refine (value_ends hm hc (by simp [Node.children])).bind ?_
    rintro v m' ⟨rfl, hv⟩
    obtain ⟨cond, rfl⟩ := hv.bool_inv
    cases cond with
    | true => exact (block_ends hb hm).weaken fun _ => .of_child (by simp [Node.children])
    | false => exact hm
  | .ifElse a c b b', .ifElse hc hb hb', hm => by
    rw [stmt]
    refine (value_ends hm hc (by simp [Node.children])).bind ?_
    rintro v m' ⟨rfl, hv⟩
    obtain ⟨cond, rfl⟩ := hv.bool_inv
    cases cond with
    | true => exact (block_ends hb hm).weaken fun _ => .of_child (by simp [Node.children])
    | false => exact (block_ends hb' hm).weaken fun _ => .of_child (by simp [Node.children])
  | .forEach a x d b, .forEach hd hb, hm => by
    rw [stmt]
    refine (value_ends hm hd (by simp [Node.children])).bind ?_
    rintro v m' ⟨rfl, hv⟩
    obtain ⟨dict, rfl, hdict⟩ := hv.dict_inv
    refine inFrame_ends hm (loop_ends (fun m₁ h₁ => ?_) hdict hm.enter)
    exact (block_ends hb h₁).weaken fun _ => .of_child (by simp [Node.children])
  | .block b, .block hb, hm => by
    rw [stmt]
    exact block_ends hb hm

theorem block_ends {Γ : List (Frame Ty)} {m : Machine σ} :
    ∀ {b : Block α}, Block.Typed Γ b → InStep Γ m →
      Ends (block sink b m) (fun _ m' => InStep Γ m') (·.AllowedIn sink (.stmt (.block b)))
  | .mk a s close, .mk hs, hm => by
    rw [block]
    obtain ⟨f, rfl⟩ := hs.outer
    refine inFrame_ends hm (Ends.imp (seq_ends hs hm.enter) (fun _ _ h => ⟨f, h⟩) fun _ => ?_)
    exact .of_child (by simp [Node.children, Block.body])

theorem seq_ends {Γ Γ' : List (Frame Ty)} {m : Machine σ} :
    ∀ {s : Seq α}, Seq.Typed Γ s Γ' → InStep Γ m →
      Ends (seq sink s m) (fun _ m' => InStep Γ' m') (·.AllowedIn sink (.seq s))
  | .empty a, .empty, hm => hm
  | .cons a s rest, .cons hs hrest, hm => by
    rw [seq]
    refine ((stmt_ends hs hm).weaken fun _ => .of_child (by simp [Node.children])).bind
      fun _ m' hm' => ?_
    exact (seq_ends hrest hm').weaken fun _ => .of_child (by simp [Node.children])

end

end Exec

/-! ## Programs -/

/-- **An accepted program does not go wrong.**  Whatever its output does, it runs to
its end, or it stops at the key of a lookup or of a deletion that is missing, or at
a statement that prints a line which its output refuses. -/
theorem Program.run_of_check (p : Program α) (sink : Sink σ) (out : σ) (h : p.check.1 = .ok ()) :
    (p.run sink out).1 = .ok () ∨ ∃ f, (p.run sink out).1 = .error f ∧
      ((∃ e k key, .expr e ∈ p.nodes ∧ e.neededKey? = some k ∧ f = ⟨k.ann, .missingKey key⟩) ∨
        ∃ a e refusal, .stmt (.print a e) ∈ p.nodes ∧ sink.Refuses refusal ∧
          f = ⟨a, .write refusal⟩) := by
  obtain ⟨Γ, hbody⟩ := check_eq_ok_iff.1 h
  have hstart : Exec.InStep [[]] (⟨.empty, out⟩ : Machine σ) := .cons .nil .nil
  have hends : Ends (Exec.seq sink p.body ⟨.empty, out⟩) _ _ := Exec.seq_ends hbody hstart
  have hchild : .seq p.body ∈ (Node.program p).children := by simp [Node.children]
  unfold run
  cases hr : Exec.seq sink p.body ⟨.empty, out⟩ with
  | ok u m => exact .inl rfl
  | error f m =>
    rw [hr] at hends
    exact .inr ⟨f, rfl, Fault.AllowedIn.of_child hchild hends⟩

/-- A program that prints the value of a key in a dictionary of one entry; its nodes
are annotated with numbers. -/
def Program.printLookup (key : Int64) : Program Nat :=
  ⟨0, .cons 1 (.print 2 (.select 3 .get (.entry 4 (.int 5 1) (.int 6 1)) (.int 7 key))) (.empty 8)⟩

/-- The program is accepted, and it does stop at the key when the key is missing. -/
theorem Program.run_of_check_printLookup :
    (printLookup 2).check.1 = .ok () ∧
      ((printLookup 2).run .all "").1 = .error ⟨7, .missingKey 2⟩ ∧
      (((printLookup 2).run .all "").1 = .ok () ∨
        ∃ f, ((printLookup 2).run .all "").1 = .error f ∧
          ((∃ e k key, .expr e ∈ (printLookup 2).nodes ∧ e.neededKey? = some k ∧
              f = ⟨k.ann, .missingKey key⟩) ∨
            ∃ a e refusal, .stmt (.print a e) ∈ (printLookup 2).nodes ∧
              Sink.all.Refuses refusal ∧ f = ⟨a, .write refusal⟩)) :=
  ⟨rfl, rfl, run_of_check (printLookup 2) .all "" rfl⟩

end PairDict
