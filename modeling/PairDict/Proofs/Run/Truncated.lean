import PairDict.Proofs.Run.Step
import PairDict.Proofs.Run.Visited

/-! # A sink that refuses only cuts a run short

What a program prints never comes back to it.  So a run into any sink is told by the run
into a **log**, a sink that takes every line and remembers the lines (`Sink.log`): as long as
the sink takes the lines of the log, the two runs do the same; and when it refuses one, the
run stops right there, at the statement which prints that line in the logged run
(`Exec.Follows`, `Program.run_follows`).

`Exec.Prints` says which statement that is: the logged run reaches it when the log holds the
lines before the refused one, and the value to be printed gives the line.  The logged run
goes on from there, and what it does later is of no concern, since a log only grows
(`Exec.Grows`).

For a sink that takes `n` lines this says that the output is cut off after `n` lines, if
there are more, and nothing else happens (`Program.run_limited`).
-/
namespace PairDict

variable {α σ β γ : Type}

namespace Sink

/-- The sink that takes everything and remembers the lines. -/
def log : Sink (List String) := ⟨fun lines line => (lines ++ [line], none)⟩

/-- A sink that remembers `o` takes some lines, one after another, and remembers `o'` then. -/
inductive Takes (sink : Sink σ) (o : σ) : List String → σ → Prop where
  | nil : Takes sink o [] o
  | snoc {lines line o' o''} : Takes sink o lines o' → sink.offer o' line = (o'', none) →
      Takes sink o (lines ++ [line]) o''

/-- A sink that remembers `o` takes the lines of `front`, but not the line after them. -/
def Stops (sink : Sink σ) (o : σ) (front : List String) (line refusal : String) (o'' : σ) : Prop :=
  ∃ o', sink.Takes o front o' ∧ sink.offer o' line = (o'', some refusal)

end Sink

namespace Exec

/-- In the logged run of a node, a statement annotated with `a` prints `line` when the log
holds the lines of `front`. -/
def Prints (n : Node α) (m : Machine (List String)) (front : List String) (a : α)
    (line : String) : Prop :=
  ∃ path e m' v, Along (Calls .log) n m path (.stmt (.print a e)) m' ∧ m'.out = front ∧
    e.eval m'.scope = .ok v ∧ line = v.text ++ "\n"

theorem Prints.of_call {n n' : Node α} {m m' : Machine (List String)} {i : Nat}
    {front : List String} {a : α} {line : String} (h : Calls .log n m i n' m')
    (hp : Prints n' m' front a line) : Prints n m front a line := by
  obtain ⟨path, e, m₁, v, halong, hrest⟩ := hp
  exact ⟨i :: path, e, m₁, v, .down h halong, hrest⟩

/-! ## A log grows -/

/-- A step takes nothing out of the log. -/
def Grows (step : Run α (List String) β) : Prop := ∀ m, m.out <+: (after step m).out

namespace Grows

variable {step : Run α (List String) β} {next : β → Run α (List String) γ}

theorem bind (h : Grows step) (hnext : ∀ b, Grows (next b)) : Grows (step >>= next) := by
  intro m
  have hfirst := h m
  cases hs : step m with
  | ok b m' =>
    rw [after_of_ok hs] at hfirst
    rw [after, bind_of_ok hs]
    exact hfirst.trans (hnext b m')
  | error f m' =>
    rw [after_of_error hs] at hfirst
    rw [after_of_error (bind_of_error hs)]
    exact hfirst

theorem pure (b : β) : Grows (pure b : Run α (List String) β) := fun _ => List.prefix_rfl

theorem throw (f : Fault α) : Grows (throw f : Run α (List String) β) := fun _ => List.prefix_rfl

theorem value (e : Expr α) : Grows (value e) := fun m => by simp [after_value]

theorem rescope (a : α) (f : Scope Value → Except ScopeError (Scope Value)) :
    Grows (rescope a f) := by
  intro m
  unfold after Exec.rescope
  cases f m.scope <;> exact List.prefix_rfl

theorem declare (x : Ident α) (v : Value) : Grows (declare x v) := rescope x.ann (·.declare x.name v)

theorem assign (x : Ident α) (v : Value) : Grows (assign x v) := rescope x.ann (·.update x.name v)

theorem emit (a : α) (line : String) : Grows (emit .log a line) :=
  fun _ => List.prefix_append ..

theorem inFrame {step : Run α (List String) Unit} (h : Grows step) : Grows (inFrame step) := by
  intro m
  rw [after_inFrame]
  exact h { m with scope := m.scope.enter }

theorem bindEntry (x : Ident α) (bound : Bool) (k : Int64) (v : Value) :
    Grows (bindEntry x bound k v) := by
  cases bound with
  | true => exact assign x _
  | false => exact declare x _

theorem loop (x : Ident α) {body : Run α (List String) Unit} (hbody : Grows body) :
    ∀ (bound : Bool) (dict : Dict), Grows (loop x body bound dict)
  | _, .nil => .pure ()
  | bound, .cons k v rest => by
    rw [loop_cons]
    exact (bindEntry x bound k v).bind fun _ => hbody.bind fun _ => loop x hbody true rest

end Grows

mutual

theorem stmt_grows : ∀ s : Stmt α, Grows (stmt .log s)
  | .var _ x e => by
    rw [stmt]
    exact (Grows.value e).bind fun v => .declare x v
  | .assign _ x e => by
    rw [stmt]
    exact (Grows.value e).bind fun v => .assign x v
  | .print a e => by
    rw [stmt]
    exact (Grows.value e).bind fun v => .emit a _
  | .ifThen _ c b => by
    rw [stmt]
    refine (Grows.value c).bind fun v => ?_
    cases Eval.needBool c.ann v with
    | error f => exact .throw f
    | ok cond =>
      cases cond with
      | true => exact block_grows b
      | false => exact .pure ()
  | .ifElse _ c b b' => by
    rw [stmt]
    refine (Grows.value c).bind fun v => ?_
    cases Eval.needBool c.ann v with
    | error f => exact .throw f
    | ok cond =>
      cases cond with
      | true => exact block_grows b
      | false => exact block_grows b'
  | .forEach _ x d b => by
    rw [stmt]
    refine (Grows.value d).bind fun v => ?_
    cases Eval.needDict d.ann v with
    | error f => exact .throw f
    | ok dict => exact .inFrame (.loop x (block_grows b) false dict)
  | .block b => by
    rw [stmt]
    exact block_grows b

theorem block_grows : ∀ b : Block α, Grows (block .log b)
  | .mk _ s _ => by
    rw [block]
    exact .inFrame (seq_grows s)

theorem seq_grows : ∀ s : Seq α, Grows (seq .log s)
  | .empty _ => .pure ()
  | .cons _ s rest => by
    rw [seq]
    exact (stmt_grows s).bind fun _ => seq_grows rest

end

/-! ## Following the log -/

/-- An outcome next to that of the same step with a log, where `prints` tells what is printed
on the way and the sink remembered `o` at first. -/
inductive Follows (sink : Sink σ) (o : σ) (prints : List String → α → String → Prop) :
    EStateM.Result (Fault α) (Machine (List String)) β →
      EStateM.Result (Fault α) (Machine σ) β → Prop where
  /-- Every line was taken, and the step has ended well in both runs. -/
  | ok {b s lines o'} : sink.Takes o lines o' →
      Follows sink o prints (.ok b ⟨s, lines⟩) (.ok b ⟨s, o'⟩)
  /-- Every line was taken, and the same fault has stopped both runs. -/
  | fault {f s lines o'} : sink.Takes o lines o' →
      Follows sink o prints (.error f ⟨s, lines⟩) (.error f ⟨s, o'⟩)
  /-- A line was refused, which the log has, and the statement that prints it is to blame. -/
  | refused {r front a line refusal s o'} : prints front a line →
      front ++ [line] <+: (left r).out → sink.Stops o front line refusal o' →
      Follows sink o prints r (.error ⟨a, .write refusal⟩ ⟨s, o'⟩)

namespace Follows

variable {sink : Sink σ} {o o' : σ} {prints prints' : List String → α → String → Prop}
  {s : Scope Value} {lines : List String} {m : Machine (List String)} {m' : Machine σ}

theorem mono {r : EStateM.Result (Fault α) (Machine (List String)) β}
    {r' : EStateM.Result (Fault α) (Machine σ) β} (h : Follows sink o prints r r')
    (hprints : ∀ front a line, prints front a line → prints' front a line) :
    Follows sink o prints' r r' := by
  cases h with
  | ok ht => exact .ok ht
  | fault ht => exact .fault ht
  | refused hp hfront hstop => exact .refused (hprints _ _ _ hp) hfront hstop

/-- One step after another.  If the first is cut short, the second may add to the log, but
the refused line stays where it is. -/
theorem bind {step : Run α (List String) β} {step' : Run α σ β}
    {next : β → Run α (List String) γ} {next' : β → Run α σ γ}
    (h : Follows sink o prints (step m) (step' m')) (hgrows : ∀ b, Grows (next b))
    (hnext : ∀ b s lines o', step m = .ok b ⟨s, lines⟩ → sink.Takes o lines o' →
      Follows sink o prints (next b ⟨s, lines⟩) (next' b ⟨s, o'⟩)) :
    Follows sink o prints ((step >>= next) m) ((step' >>= next') m') := by
  generalize hr : step m = r at h
  generalize hr' : step' m' = r' at h
  cases h with
  | ok ht =>
    rw [bind_of_ok hr, bind_of_ok hr']
    exact hnext _ _ _ _ hr ht
  | fault ht =>
    rw [bind_of_error hr, bind_of_error hr']
    exact .fault ht
  | refused hp hfront hstop =>
    rw [bind_of_error hr']
    refine .refused hp (hfront.trans ?_) hstop
    cases r with
    | ok b m₁ =>
      rw [bind_of_ok hr]
      exact hgrows b m₁
    | error f m₁ =>
      rw [bind_of_error hr]
      exact List.prefix_rfl

/-- An expression has the same value in both runs. -/
theorem value {e : Expr α} {next : Value → Run α (List String) β} {next' : Value → Run α σ β}
    (ht : sink.Takes o lines o')
    (hnext : ∀ v, e.eval s = .ok v →
      Follows sink o prints (next v ⟨s, lines⟩) (next' v ⟨s, o'⟩)) :
    Follows sink o prints ((value e >>= next) ⟨s, lines⟩) ((value e >>= next') ⟨s, o'⟩) := by
  cases he : e.eval s with
  | ok v =>
    rw [bind_of_ok (value_of_ok he), bind_of_ok (value_of_ok he)]
    exact hnext v he
  | error f =>
    rw [bind_of_error (value_of_error he), bind_of_error (value_of_error he)]
    exact .fault ht

theorem rescope {a : α} {f : Scope Value → Except ScopeError (Scope Value)}
    (ht : sink.Takes o lines o') :
    Follows sink o prints (rescope a f ⟨s, lines⟩) (rescope a f ⟨s, o'⟩) := by
  unfold Exec.rescope
  dsimp only
  cases f s with
  | ok s' => exact .ok ht
  | error e => exact .fault ht

theorem declare {x : Ident α} {v : Value} (ht : sink.Takes o lines o') :
    Follows sink o prints (declare x v ⟨s, lines⟩) (declare x v ⟨s, o'⟩) := rescope ht

theorem assign {x : Ident α} {v : Value} (ht : sink.Takes o lines o') :
    Follows sink o prints (assign x v ⟨s, lines⟩) (assign x v ⟨s, o'⟩) := rescope ht

theorem emit {a : α} {line : String} (ht : sink.Takes o lines o') (hp : prints lines a line) :
    Follows sink o prints (emit .log a line ⟨s, lines⟩) (emit sink a line ⟨s, o'⟩) := by
  have hlog : Exec.emit .log a line ⟨s, lines⟩ = .ok () ⟨s, lines ++ [line]⟩ := rfl
  rw [hlog]
  unfold Exec.emit
  rcases ho : sink.offer o' line with ⟨o'', _ | refusal⟩
  · exact .ok (ht.snoc ho)
  · exact .refused hp List.prefix_rfl ⟨o', ht, ho⟩

theorem inFrame {step : Run α (List String) Unit} {step' : Run α σ Unit}
    (h : Follows sink o prints (step ⟨s.enter, lines⟩) (step' ⟨s.enter, o'⟩)) :
    Follows sink o prints (inFrame step ⟨s, lines⟩) (inFrame step' ⟨s, o'⟩) := by
  unfold Exec.inFrame
  dsimp only
  generalize step ⟨s.enter, lines⟩ = r at h
  generalize step' ⟨s.enter, o'⟩ = r' at h
  cases h with
  | ok ht => exact .ok ht
  | fault ht => exact .fault ht
  | refused hp hfront hstop =>
    refine .refused hp ?_ hstop
    cases r <;> exact hfront

theorem bindEntry {x : Ident α} {bound : Bool} {k : Int64} {v : Value}
    (ht : sink.Takes o lines o') :
    Follows sink o prints (bindEntry x bound k v ⟨s, lines⟩) (bindEntry x bound k v ⟨s, o'⟩) := by
  cases bound with
  | true => exact assign ht
  | false => exact declare ht

/-- **A loop follows the log if each of its iterations does.** -/
theorem loop {x : Ident α} {body : Run α (List String) Unit} {body' : Run α σ Unit}
    (hgrows : Grows body) :
    ∀ {dict : Dict} {bound : Bool} {s : Scope Value} {lines : List String} {o' : σ},
      sink.Takes o lines o' →
      (∀ s₁ lines₁ o₁, Iterates x body bound dict ⟨s, lines⟩ ⟨s₁, lines₁⟩ →
        sink.Takes o lines₁ o₁ →
        Follows sink o prints (body ⟨s₁, lines₁⟩) (body' ⟨s₁, o₁⟩)) →
      Follows sink o prints (loop x body bound dict ⟨s, lines⟩) (loop x body' bound dict ⟨s, o'⟩)
  | .nil, _, _, _, _, ht, _ => .ok ht
  | .cons k v rest, bound, s, lines, o', ht, hbody => by
    rw [loop_cons, loop_cons]
    have hrest : Grows (Exec.loop x body true rest) := .loop x hgrows true rest
    refine (bindEntry ht).bind (fun _ => hgrows.bind fun _ => hrest) ?_
    intro _ s₁ lines₁ o₁ h₁ ht₁
    refine (hbody s₁ lines₁ o₁ (.here h₁) ht₁).bind (fun _ => hrest) ?_
    intro _ s₂ lines₂ o₂ h₂ ht₂
    refine loop hgrows ht₂ fun s₃ lines₃ o₃ h₃ ht₃ => ?_
    exact hbody s₃ lines₃ o₃ (.later h₁ h₂ h₃) ht₃

end Follows

mutual

/-- **A statement follows the log.** -/
theorem stmt_follows (sink : Sink σ) {o o' : σ} {sc : Scope Value} {lines : List String}
    (ht : sink.Takes o lines o') : ∀ s : Stmt α,
    Follows sink o (Prints (.stmt s) ⟨sc, lines⟩) (stmt .log s ⟨sc, lines⟩) (stmt sink s ⟨sc, o'⟩)
  | .var a x e => by
    rw [stmt, stmt]
    exact .value ht fun v _ => .declare ht
  | .assign a x e => by
    rw [stmt, stmt]
    exact .value ht fun v _ => .assign ht
  | .print a e => by
    rw [stmt, stmt]
    exact .value ht fun v hv => .emit ht ⟨[], e, ⟨sc, lines⟩, v, .here, rfl, hv, rfl⟩
  | .ifThen a c b => by
    rw [stmt, stmt]
    refine .value ht fun v hv => ?_
    cases hc : Eval.needBool c.ann v with
    | error f => exact .fault ht
    | ok cond =>
      cases Eval.needBool_eq_ok hc
      cases cond with
      | true => exact (block_follows sink ht b).mono fun _ _ _ => .of_call (.ifThenYes hv)
      | false => exact .ok ht
  | .ifElse a c b b' => by
    rw [stmt, stmt]
    refine .value ht fun v hv => ?_
    cases hc : Eval.needBool c.ann v with
    | error f => exact .fault ht
    | ok cond =>
      cases Eval.needBool_eq_ok hc
      cases cond with
      | true => exact (block_follows sink ht b).mono fun _ _ _ => .of_call (.ifElseYes hv)
      | false => exact (block_follows sink ht b').mono fun _ _ _ => .of_call (.ifElseNo hv)
  | .forEach a x d b => by
    rw [stmt, stmt]
    refine .value ht fun v hv => ?_
    cases hd : Eval.needDict d.ann v with
    | error f => exact .fault ht
    | ok dict =>
      cases Eval.needDict_eq_ok hd
      refine .inFrame (.loop (block_grows b) ht fun s₁ lines₁ o₁ hiter ht₁ => ?_)
      exact (block_follows sink ht₁ b).mono fun _ _ _ => .of_call (.forEachBody hv hiter)
  | .block b => by
    rw [stmt, stmt]
    exact block_follows sink ht b

theorem block_follows (sink : Sink σ) {o o' : σ} {sc : Scope Value} {lines : List String}
    (ht : sink.Takes o lines o') : ∀ b : Block α,
    Follows sink o (Prints (.stmt (.block b)) ⟨sc, lines⟩) (block .log b ⟨sc, lines⟩)
      (block sink b ⟨sc, o'⟩)
  | .mk a s close => by
    rw [block, block]
    exact .inFrame ((seq_follows sink ht s).mono fun _ _ _ => .of_call .block)

theorem seq_follows (sink : Sink σ) {o o' : σ} {sc : Scope Value} {lines : List String}
    (ht : sink.Takes o lines o') : ∀ s : Seq α,
    Follows sink o (Prints (.seq s) ⟨sc, lines⟩) (seq .log s ⟨sc, lines⟩) (seq sink s ⟨sc, o'⟩)
  | .empty a => .ok ht
  | .cons a s rest => by
    rw [seq, seq]
    refine ((stmt_follows sink ht s).mono fun _ _ _ => .of_call .first).bind
      (fun _ => seq_grows rest) ?_
    intro _ s₁ lines₁ o₁ h₁ ht₁
    exact (seq_follows sink ht₁ rest).mono fun _ _ _ => .of_call (.rest h₁)

end

end Exec

/-! ## Programs -/

/-- **Every run follows the log.**  Either the sink takes all lines of the log, and the run
ends as the logged one does; or the run stops at the statement that prints a line which the
sink refuses, when it has taken the lines before it. -/
theorem Program.run_follows (p : Program α) (sink : Sink σ) (o : σ) :
    (∃ o', sink.Takes o (p.run .log []).2 o' ∧ p.run sink o = ((p.run .log []).1, o')) ∨
      ∃ front a line refusal o', Exec.Prints (.program p) ⟨.empty, []⟩ front a line ∧
        front ++ [line] <+: (p.run .log []).2 ∧ sink.Stops o front line refusal o' ∧
        p.run sink o = (.error ⟨a, .write refusal⟩, o') := by
  have hbody : Exec.Follows sink o (Exec.Prints (.seq p.body) ⟨.empty, []⟩)
      (Exec.seq .log p.body ⟨.empty, []⟩) (Exec.seq sink p.body ⟨.empty, o⟩) :=
    Exec.seq_follows sink .nil p.body
  unfold run
  generalize Exec.seq sink p.body ⟨.empty, o⟩ = r' at hbody
  generalize Exec.seq .log p.body ⟨.empty, []⟩ = r at hbody
  cases hbody with
  | ok ht => exact .inl ⟨_, ht, rfl⟩
  | fault ht => exact .inl ⟨_, ht, rfl⟩
  | refused hp hfront hstop =>
    refine .inr ⟨_, _, _, _, _, hp.of_call .program, ?_, hstop, rfl⟩
    cases r <;> exact hfront

namespace Sink

variable {refusal refusal' line : String} {n : Nat} {front lines : List String} {o' : Nat × String}

/-- The text that is left of some lines is the lines, one after another. -/
theorem takes_all {text : String} (h : all.Takes "" lines text) : text = String.join lines := by
  induction h with
  | nil => exact String.join_nil.symm
  | snoc _ hoffer ih =>
    cases hoffer
    rw [ih, String.join_append, String.join_cons, String.join_nil, String.append_empty]

theorem takes_limited (h : (limited refusal).Takes (n, "") lines o') :
    lines.length ≤ n ∧ o' = (n - lines.length, String.join lines) := by
  induction h with
  | nil => exact ⟨Nat.zero_le n, rfl⟩
  | @snoc lines line o₁ o₂ _ hoffer ih =>
    obtain ⟨hle, rfl⟩ := ih
    have hjoin : String.join (lines ++ [line]) = String.join lines ++ line := by
      rw [String.join_append, String.join_cons, String.join_nil, String.append_empty]
    rw [List.length_append, List.length_singleton, hjoin]
    -- the line was taken, so there was room for one more
    cases hleft : n - lines.length with
    | zero =>
      rw [hleft] at hoffer
      cases hoffer
    | succ k =>
      rw [hleft] at hoffer
      cases hoffer
      have hk : k = n - (lines.length + 1) := by omega
      exact ⟨by omega, by rw [hk]⟩

theorem stops_limited (h : (limited refusal).Stops (n, "") front line refusal' o') :
    front.length = n ∧ refusal' = refusal ∧ o' = (0, String.join front) := by
  obtain ⟨o₁, htakes, hoffer⟩ := h
  obtain ⟨hle, rfl⟩ := takes_limited htakes
  cases hleft : n - front.length with
  | zero =>
    rw [hleft] at hoffer
    cases hoffer
    have hlength : front.length = n := by omega
    exact ⟨hlength, rfl, rfl⟩
  | succ k =>
    rw [hleft] at hoffer
    cases hoffer

end Sink

/-- **A sink that takes `n` lines only cuts a run short.**  A sink that takes everything has
the lines of the log at the end.  If these are at most `n`, the sink that takes `n` lines makes
no difference.  If there are more, it has the first `n` of them at the end, and the run fails
with its refusal, at the statement that prints the next one in the logged run. -/
theorem Program.run_limited (p : Program α) (refusal : String) (n : Nat) :
    p.run .all "" = ((p.run .log []).1, String.join (p.run .log []).2) ∧
    ((p.run .log []).2.length ≤ n →
      p.run (.limited refusal) (n, "") =
        ((p.run .log []).1, (n - (p.run .log []).2.length, String.join (p.run .log []).2))) ∧
    (n < (p.run .log []).2.length →
      ∃ a line, (p.run .log []).2[n]? = some line ∧
        Exec.Prints (.program p) ⟨.empty, []⟩ ((p.run .log []).2.take n) a line ∧
        p.run (.limited refusal) (n, "") =
          (.error ⟨a, .write refusal⟩, (0, String.join ((p.run .log []).2.take n)))) := by
  refine ⟨?_, ?_, ?_⟩
  · rcases p.run_follows .all "" with ⟨text, htakes, hrun⟩ | ⟨_, _, _, _, _, _, _, hstop, _⟩
    · rw [hrun, Sink.takes_all htakes]
    · -- this sink refuses nothing
      obtain ⟨_, _, hoffer⟩ := hstop
      cases hoffer
  · intro hle
    rcases p.run_follows (.limited refusal) (n, "") with
      ⟨o', htakes, hrun⟩ | ⟨front, a, line, r, o', _, hfront, hstop, _⟩
    · rw [hrun, (Sink.takes_limited htakes).2]
    · have hlength : front.length = n := (Sink.stops_limited hstop).1
      have hle' := hfront.length_le
      rw [List.length_append, List.length_singleton] at hle'
      omega
  · intro hlt
    rcases p.run_follows (.limited refusal) (n, "") with
      ⟨o', htakes, _⟩ | ⟨front, a, line, r, o', hprints, ⟨rest, hlog⟩, hstop, hrun⟩
    · have hle := (Sink.takes_limited htakes).1
      omega
    · obtain ⟨hlength, rfl, rfl⟩ := Sink.stops_limited hstop
      have htake : (p.run .log []).2.take n = front := by
        rw [← hlog, List.append_assoc, ← hlength, List.take_left]
      have hnext : (p.run .log []).2[n]? = some line := by
        rw [← hlog, List.append_assoc, ← hlength, List.getElem?_append_right (Nat.le_refl _),
          Nat.sub_self]
        rfl
      rw [htake]
      exact ⟨a, line, hnext, hprints, hrun⟩

/-- A sink that takes one line stops `printValues` at its second entry. -/
theorem Program.run_limited_printValues :
    printValues.run .log [] = (.ok (), ["10\n", "20\n"]) ∧
      printValues.run (.limited "full") (1, "") = (.error ⟨12, .write "full"⟩, (0, "10\n")) ∧
      ∃ a line, ["10\n", "20\n"][1]? = some line ∧
        Exec.Prints (.program printValues) ⟨.empty, []⟩ ["10\n"] a line ∧
        printValues.run (.limited "full") (1, "") = (.error ⟨a, .write "full"⟩, (0, "10\n")) := by
  have hlog : printValues.run .log [] = (.ok (), ["10\n", "20\n"]) := by rfl
  have hcut := (run_limited printValues "full" 1).2.2
  rw [hlog] at hcut
  exact ⟨hlog, by rfl, hcut (by decide)⟩

end PairDict
