import PairDict.Proofs.Run.Made

/-! # A loop is its body, written once for each entry

A loop over a dictionary does what is done by the program in which the loop is written out
(`Exec.unrolled`): in one frame, the variable is declared for the first entry and assigned to
for each of the others, and the body follows every time.  The entries are those of the dictionary
that the loop has found when it began.  What the body does to the variables from which the
dictionary came, or to the variable of the loop, changes none of this.

Written out or not, a failure of the body is the only thing that can end the loop early.
`Exec.Rounds` describes its course without a failure of a binding: it goes from one start of
the body to the next.  There is such a course because the variable is bound in the innermost
frame as soon as it has been declared, and because the body, which is a block, gives this frame
back with the names that it bound (`Exec.loop_rounds`).
-/
namespace PairDict

variable {α σ : Type}

/-- The pair as which an entry is given to the body of a loop. -/
def Value.entry (b : Int64 × Value) : Value := .pair (.int b.1) b.2

namespace Exec

/-- A round of a loop after the first one. -/
def again (x : Ident α) (body : Run α σ Unit) (b : Int64 × Value) : Run α σ Unit := do
  assign x (.entry b)
  body

/-- The statements that a loop over these entries comes to. -/
def unrolled (x : Ident α) (body : Run α σ Unit) : List (Int64 × Value) → Run α σ Unit
  | [] => pure ()
  | first :: others => do
    declare x (.entry first)
    body
    others.forM (again x body)

/-- The course of a loop from a machine, with the machines in which the body is started and
the result.  Binding the variable succeeds each time, and only the body can fail. -/
inductive Rounds (x : Ident α) (body : Run α σ Unit) :
    Bool → List (Int64 × Value) → Machine σ → List (Machine σ) →
      EStateM.Result (Fault α) (Machine σ) Unit → Prop where
  /-- No entry is left. -/
  | finished {bound m} : Rounds x body bound [] m [] (.ok () m)
  /-- The body fails, and nothing comes after it. -/
  | failed {bound b rest m m₁ m₂ f} : bindEntry x bound b.1 b.2 m = .ok () m₁ →
      body m₁ = .error f m₂ → Rounds x body bound (b :: rest) m [m₁] (.error f m₂)
  /-- The body succeeds, and the others follow. -/
  | next {bound b rest m m₁ m₂ starts r} : bindEntry x bound b.1 b.2 m = .ok () m₁ →
      body m₁ = .ok () m₂ → Rounds x body true rest m₂ starts r →
      Rounds x body bound (b :: rest) m (m₁ :: starts) r

section

variable {x : Ident α} {body : Run α σ Unit} {sink : Sink σ} {m m' : Machine σ}
  {bound : Bool} {entries : List (Int64 × Value)}

/-! ## Written out -/

theorem loop_true_eq_forM (x : Ident α) (body : Run α σ Unit) (d : Dict) :
    loop x body true d = d.toList.forM (again x body) := by
  cases d with
  | nil => rfl
  | cons k v rest =>
    have hcons : (Dict.cons k v rest).toList.forM (again x body) =
        again x body (k, v) >>= fun _ => rest.toList.forM (again x body) := rfl
    rw [hcons, again, bind_assoc, loop_cons, loop_true_eq_forM x body rest]
    rfl

theorem loop_eq_unrolled (x : Ident α) (body : Run α σ Unit) (d : Dict) :
    loop x body false d = unrolled x body d.toList := by
  cases d with
  | nil => rfl
  | cons k v rest =>
    rw [loop_cons, loop_true_eq_forM]
    rfl

/-! ## Rounds -/

theorem declare_of_not_mem {v : Value} (h : x.name ∉ m.scope.inner.names) :
    ∃ m', declare x v m = .ok () m' := by
  have hs : m.scope.declare x.name v = .ok _ :=
    Scope.declare_eq_ok_iff.2 ⟨Frame.get?_eq_none_iff.2 h, rfl⟩
  rw [declare, rescope, hs]
  exact ⟨_, rfl⟩

theorem assign_of_mem {v : Value} (h : x.name ∈ m.scope.inner.names) :
    ∃ m', assign x v m = .ok () m' := by
  obtain ⟨w, hw⟩ := Frame.get?_eq_some_iff_mem.2 h
  have hs : m.scope.update x.name v = .ok { m.scope with inner := m.scope.inner.set x.name v } := by
    rw [Scope.update, hw]
  rw [assign, rescope, hs]
  exact ⟨_, rfl⟩

/-- **The variable of a loop can be bound**, and is bound in the frame of the loop then. -/
theorem bindEntry_succeeds (hbound : bound = true ↔ x.name ∈ m.scope.inner.names) (k : Int64)
    (v : Value) :
    ∃ m', bindEntry x bound k v m = .ok () m' ∧ x.name ∈ m'.scope.inner.names := by
  have hchanges : Scope.Changes [x.name] (fun _ _ => True) m.scope
        (after (bindEntry x bound k v) m).scope ∧
      ∀ m', bindEntry x bound k v m = .ok () m' → x.name ∈ m'.scope.inner.names :=
    bindEntry_changes hbound.1 fun _ => trivial
  suffices ∃ m', bindEntry x bound k v m = .ok () m' by
    obtain ⟨m', hm'⟩ := this
    exact ⟨m', hm', hchanges.2 m' hm'⟩
  cases bound with
  | true => exact assign_of_mem (hbound.1 rfl)
  | false => exact declare_of_not_mem fun h => Bool.false_ne_true (hbound.2 h)

/-- **A loop goes its course**, if its body takes no name from the frame of the loop. -/
theorem loop_rounds
    (hbody : ∀ m, x.name ∈ m.scope.inner.names → x.name ∈ (after body m).scope.inner.names) :
    ∀ {d : Dict} {bound : Bool} {m : Machine σ}, (bound = true ↔ x.name ∈ m.scope.inner.names) →
      ∃ starts, Rounds x body bound d.toList m starts (loop x body bound d m)
  | .nil, _, _, _ => ⟨[], .finished⟩
  | .cons k v rest, bound, m, hbound => by
    obtain ⟨m₁, h₁, hx⟩ := bindEntry_succeeds hbound k v
    rw [loop_cons, bind_of_ok h₁, Dict.toList_cons]
    cases h₂ : body m₁ with
    | error f m₂ =>
      rw [bind_of_error h₂]
      exact ⟨[m₁], .failed h₁ h₂⟩
    | ok u m₂ =>
      have hx₂ : x.name ∈ m₂.scope.inner.names := after_of_ok h₂ ▸ hbody m₁ hx
      obtain ⟨starts, hrest⟩ := loop_rounds hbody (d := rest) (iff_of_true rfl hx₂)
      rw [bind_of_ok h₂]
      exact ⟨m₁ :: starts, .next h₁ h₂ hrest⟩

/-- A loop that is over has run its body for every entry. -/
theorem Rounds.length_eq {starts : List (Machine σ)}
    (h : Rounds x body bound entries m starts (.ok () m')) : starts.length = entries.length := by
  generalize hr : EStateM.Result.ok () m' = r at h
  induction h with
  | finished => rfl
  | failed => cases hr
  | next _ _ _ ih => rw [List.length_cons, List.length_cons, ih hr]

end

/-- **A loop is its body, written once for each entry.**  Where the dictionary is evaluated, the
loop has the result, the output and the scope of the frame in which it is written out; the body
is started with the variable bound each time, until it fails or there is no entry left, so as
often as there are entries if it never fails.  The entries are shown by ascending keys, and are
those of the dictionary, as dictionaries are made (`Program.run_made`). -/
theorem forEach_unrolls (sink : Sink σ) (a : α) (x : Ident α) (e : Expr α) (b : Block α)
    (m : Machine σ) (d : Dict) (hd : e.eval m.scope = .ok (.dict d)) :
    stmt sink (.forEach a x e b) m = inFrame (unrolled x (block sink b) d.toList) m ∧
    (∃ starts, Rounds x (block sink b) false d.toList (entered m) starts
        (unrolled x (block sink b) d.toList (entered m)) ∧
      ∀ m', unrolled x (block sink b) d.toList (entered m) = .ok () m' →
        starts.length = d.toList.length) ∧
    (m.scope.Made → d.toList.Pairwise (fun b c => b.1.toInt < c.1.toInt) ∧
      ∀ k v, (k, v) ∈ d.toList ↔ d.get? k = some v) := by
  refine ⟨?_, ?_, fun hm => ?_⟩
  · rw [stmt, bind_of_ok (value_of_ok hd), ← loop_eq_unrolled]
    rfl
  · rw [← loop_eq_unrolled]
    have hbody : ∀ m, x.name ∈ m.scope.inner.names →
        x.name ∈ (after (block sink b) m).scope.inner.names :=
      fun m hx => (block_changes sink m b).mem_inner hx
    obtain ⟨starts, hrounds⟩ := loop_rounds hbody (d := d) (m := entered m)
      (iff_of_false Bool.false_ne_true List.not_mem_nil)
    refine ⟨starts, hrounds, fun m' hm' => ?_⟩
    rw [hm'] at hrounds
    exact hrounds.length_eq
  · cases e.made_of_eval hm hd with
    | dict hmade =>
      exact ⟨hmade.ordered.imp Int64.lt_iff_toInt_lt.1, fun _ _ => hmade.ordered.mem_toList_iff⟩

end Exec

/-- A loop over `d` that prints its variable, and then assigns to the variable and to `d`; its
nodes are annotated with numbers. -/
def Stmt.rebindingLoop : Stmt Nat :=
  .forEach 0 ⟨1, "x"⟩ (.name 2 "d")
    (.mk 3 (.cons 4 (.print 5 (.name 6 "x")) (.cons 7 (.assign 8 ⟨9, "x"⟩ (.int 10 0))
      (.cons 11 (.assign 12 ⟨13, "d"⟩ (.int 14 0)) (.empty 15)))) 16)

/-- A machine with a dictionary `d` of two entries. -/
def Machine.twoEntries : Machine String :=
  ⟨⟨[("d", .dict ((Dict.empty.insert 3 (.bool true)).insert (-1) (.int 4)))], []⟩, ""⟩

open Exec in
/-- The second round is over an entry that `d` does not have any more. -/
theorem Exec.forEach_unrolls_rebindingLoop :
    ∃ dict body, (Expr.name 2 "d").eval Machine.twoEntries.scope = .ok (.dict dict) ∧
      (after (stmt .all Stmt.rebindingLoop) Machine.twoEntries).out = "(-1,4)\n(3,true)\n" ∧
      stmt .all Stmt.rebindingLoop Machine.twoEntries =
        inFrame (unrolled ⟨1, "x"⟩ (block .all body) dict.toList) Machine.twoEntries := by
  refine ⟨_, _, rfl, ?_, (forEach_unrolls .all 0 ⟨1, "x"⟩ (.name 2 "d") _ .twoEntries _ rfl).1⟩
  decide +kernel

end PairDict
