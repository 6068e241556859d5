import PairDict.Proofs.Run.Discipline
import PairDict.Proofs.Value.Ordered

/-! # A running program makes its values

What holds of dictionaries as they are built (`Dict.Made`) holds of every dictionary that a
program gets hold of, if it starts with variables whose values are made (`Scope.Made`):
expressions have such values (`Expr.eval_made`), and whatever is run, and however it ends,
leaves such variables behind (`Exec.Keeps`).  So they are made wherever the run of a program
gets (`Program.run_made`).

A step is followed by what is to be run on its result, and by what is to be run on the machine
it leaves.  So `Keeps` says of a step what it leaves in the scope and what holds of its result,
and is carried through a sequence by one lemma (`Keeps.bind`).
-/
namespace PairDict

variable {α σ β γ : Type}

/-- The value of every variable is made. -/
def Scope.Made (s : Scope Value) : Prop := ∀ f ∈ s.frames, ∀ b ∈ f, b.2.Made

/-! ## Scopes -/

namespace Frame

variable {f : Frame β} {x : String} {v : β}

theorem mem_of_get? (h : f.get? x = some v) : (x, v) ∈ f := by
  induction f with
  | nil => cases h
  | cons b f ih =>
    obtain ⟨y, w⟩ := b
    by_cases hxy : x = y
    · subst hxy
      rw [get?_cons_self] at h
      cases h
      exact List.mem_cons_self
    · rw [get?_cons_of_ne hxy] at h
      exact List.mem_cons_of_mem _ (ih h)

theorem mem_set {b : String × β} (h : b ∈ f.set x v) : b = (x, v) ∨ b ∈ f := by
  obtain ⟨c, hc, hb⟩ := List.mem_map.1 h
  split at hb
  · exact .inl hb.symm
  · exact .inr (hb ▸ hc)

end Frame

namespace Scope

variable {x : String}

theorem mem_of_updateFrames {v : β} {fs fs' : List (Frame β)}
    (h : updateFrames x v fs = some fs') {f : Frame β} (hf : f ∈ fs') {b : String × β}
    (hb : b ∈ f) : b = (x, v) ∨ ∃ g ∈ fs, b ∈ g := by
  induction fs generalizing fs' with
  | nil => cases h
  | cons g fs ih =>
    rw [updateFrames] at h
    cases hg : g.get? x with
    | some w =>
      rw [hg] at h
      cases h
      rcases List.mem_cons.1 hf with rfl | hf
      · exact (Frame.mem_set hb).imp id fun hb => ⟨g, List.mem_cons_self, hb⟩
      · exact .inr ⟨f, List.mem_cons_of_mem _ hf, hb⟩
    | none =>
      rw [hg] at h
      obtain ⟨gs, hgs, rfl⟩ := Option.map_eq_some_iff.1 h
      rcases List.mem_cons.1 hf with rfl | hf
      · exact .inr ⟨f, List.mem_cons_self, hb⟩
      · rcases ih hgs hf with hv | ⟨g', hg', hb'⟩
        · exact .inl hv
        · exact .inr ⟨g', List.mem_cons_of_mem _ hg', hb'⟩

namespace Made

variable {s s' : Scope Value} {v : Value}

theorem empty : Scope.empty.Made := by
  intro f hf b hb
  cases List.mem_singleton.1 hf
  cases hb

theorem lookup (h : s.Made) (hx : s.lookup x = .ok v) : v.Made := by
  rw [Scope.lookup] at hx
  cases hfind : find? x s.frames with
  | none =>
    rw [hfind] at hx
    cases hx
  | some w =>
    rw [hfind] at hx
    cases hx
    obtain ⟨f, hf, hv⟩ := List.exists_of_findSome?_eq_some hfind
    exact h f hf _ (Frame.mem_of_get? hv)

theorem declare (h : s.Made) (hv : v.Made) (hs : s.declare x v = .ok s') : s'.Made := by
  obtain ⟨-, rfl⟩ := declare_eq_ok_iff.1 hs
  intro f hf b hb
  rcases List.mem_cons.1 hf with rfl | hf
  · rcases List.mem_cons.1 hb with rfl | hb
    · exact hv
    · exact h s.inner List.mem_cons_self b hb
  · exact h f (List.mem_cons_of_mem _ hf) b hb

theorem update (h : s.Made) (hv : v.Made) (hs : s.update x v = .ok s') : s'.Made := by
  intro f hf b hb
  rcases mem_of_updateFrames (updateFrames_of_update hs) hf hb with rfl | ⟨g, hg, hb⟩
  · exact hv
  · exact h g hg b hb

theorem enter (h : s.Made) : s.enter.Made := by
  intro f hf b hb
  rcases List.mem_cons.1 hf with rfl | hf
  · cases hb
  · exact h f hf b hb

theorem leave (h : s.Made) : s.leave.Made := by
  obtain ⟨inner, outer⟩ := s
  cases outer with
  | nil => exact h
  | cons g gs => exact fun f hf => h f (List.mem_cons_of_mem _ hf)

end Made

end Scope

/-! ## Expressions -/

namespace Eval

variable {a : α} {v : Value}

theorem needPair_made (h : v.Made) :
    Yields (needPair a v) (fun p => p.1.Made ∧ p.2.Made) fun _ => True := by
  cases h with
  | pair hx hy => exact ⟨hx, hy⟩
  | _ => trivial

theorem needDict_made (h : v.Made) : Yields (needDict a v) Dict.Made fun _ => True := by
  cases h with
  | dict hd => exact hd
  | _ => trivial

theorem fetch_made {d : Dict} (h : d.Made) (key : Int64) :
    Yields (fetch a d key) Value.Made fun _ => True := by
  unfold fetch
  cases hv : d.get? key with
  | some w => exact h.get? hv
  | none => trivial

theorem remove_made {d : Dict} (h : d.Made) (key : Int64) :
    Yields (remove a d key) Value.Made fun _ => True :=
  (fetch_made h key).bind fun _ _ => .dict (.erase key h)

end Eval

/-- A result of which nothing is to be said. -/
theorem Yields.any {ε : Type} (r : Except ε β) : Yields r (fun _ => True) fun _ => True := by
  cases r <;> trivial

open Eval in
/-- **Values of expressions are made.** -/
theorem Expr.eval_made {s : Scope Value} (hs : s.Made) :
    ∀ e : Expr α, Yields (e.eval s) Value.Made fun _ => True
  | .name a x => by
    rw [eval]
    cases hx : s.lookup x with
    | ok v => exact hs.lookup hx
    | error e => trivial
  | .int _ n => .int n
  | .bool _ b => .bool b
  | .pair _ x y => by
    rw [eval]
    refine (eval_made hs x).bind fun u hu => ?_
    exact (eval_made hs y).bind fun v hv => .pair hu hv
  | .unary a op x => by
    unfold eval
    split
    · exact (eval_made hs x).bind fun u _ => (Yields.any _).bind fun n _ => .int _
    · exact (eval_made hs x).bind fun u _ => (Yields.any _).bind fun b _ => .bool _
    · exact (eval_made hs x).bind fun u hu => (needPair_made hu).bind fun p hp => hp.1
    · exact (eval_made hs x).bind fun u hu => (needPair_made hu).bind fun p hp => hp.2
    · trivial
  | .binary a op x y => by
    unfold eval
    split
    · refine (eval_made hs x).bind fun u _ => (Yields.any _).bind fun m _ => ?_
      exact (eval_made hs y).bind fun v _ => (Yields.any _).bind fun n _ => .int _
    · refine (eval_made hs x).bind fun u _ => (Yields.any _).bind fun m _ => ?_
      exact (eval_made hs y).bind fun v _ => (Yields.any _).bind fun n _ => .int _
    · refine (eval_made hs x).bind fun u _ => (Yields.any _).bind fun b _ => ?_
      cases b with
      | false => exact .bool _
      | true => exact (eval_made hs y).bind fun v _ => (Yields.any _).bind fun c _ => .bool _
    · refine (eval_made hs x).bind fun u _ => ?_
      exact (eval_made hs y).bind fun v _ => .bool _
    · trivial
  | .entry _ k v => by
    rw [eval]
    refine (eval_made hs k).bind fun u _ => (Yields.any _).bind fun key _ => ?_
    exact (eval_made hs v).bind fun w hw => .dict (.insert key .empty hw)
  | .select a op d k => by
    rw [eval]
    refine (eval_made hs d).bind fun u hu => (needDict_made hu).bind fun dict hd => ?_
    refine (eval_made hs k).bind fun w _ => (Yields.any _).bind fun key _ => ?_
    cases op with
    | get => exact fetch_made hd key
    | delete => exact remove_made hd key
    | _ => trivial
  | .store a op d k v => by
    cases op with
    | create =>
      rw [eval]
      refine (eval_made hs k).bind fun u _ => (Yields.any _).bind fun key _ => ?_
      exact (eval_made hs v).bind fun w hw => .dict (.insert key .empty hw)
    | get =>
      rw [eval]
      refine (eval_made hs d).bind fun u hu => (needDict_made hu).bind fun dict hd => ?_
      exact (eval_made hs k).bind fun w _ => (Yields.any _).bind fun key _ => fetch_made hd key
    | delete =>
      rw [eval]
      refine (eval_made hs d).bind fun u hu => (needDict_made hu).bind fun dict hd => ?_
      exact (eval_made hs k).bind fun w _ => (Yields.any _).bind fun key _ => remove_made hd key
    | update =>
      rw [eval]
      refine (eval_made hs d).bind fun u hu => (needDict_made hu).bind fun dict hd => ?_
      refine (eval_made hs k).bind fun w _ => (Yields.any _).bind fun key _ => ?_
      exact (eval_made hs v).bind fun w hw => .dict (.insert key hd hw)
    | other n =>
      rw [eval]
      refine (eval_made hs d).bind fun u hu => (needDict_made hu).bind fun dict hd => ?_
      exact (eval_made hs k).bind fun w _ => (Yields.any _).bind fun key _ => trivial

theorem Expr.made_of_eval {s : Scope Value} (hs : s.Made) {e : Expr α} {v : Value}
    (h : e.eval s = .ok v) : v.Made := by
  have hyields : Yields (e.eval s) Value.Made fun _ => True := e.eval_made hs
  rwa [h] at hyields

/-! ## Statements -/

namespace Exec

/-- Where the values of variables are made, they are afterwards, however the step ends, and
`good` holds of the result that it has. -/
def Keeps (step : Run α σ β) (good : β → Prop) : Prop :=
  ∀ m : Machine σ, m.scope.Made →
    (after step m).scope.Made ∧ ∀ b m', step m = .ok b m' → good b

namespace Keeps

variable {step : Run α σ β} {next : β → Run α σ γ} {good : β → Prop} {good' : γ → Prop}

theorem bind (h : Keeps step good) (hnext : ∀ b, good b → Keeps (next b) good') :
    Keeps (step >>= next) good' := by
  intro m hm
  obtain ⟨hafter, hgood⟩ := h m hm
  cases hs : step m with
  | ok b m' =>
    rw [after_of_ok hs] at hafter
    rw [after, bind_of_ok hs]
    exact hnext b (hgood b m' hs) m' hafter
  | error f m' =>
    rw [after_of_error hs] at hafter
    rw [after_of_error (bind_of_error hs)]
    refine ⟨hafter, fun c m'' hc => ?_⟩
    rw [bind_of_error hs] at hc
    cases hc

theorem pure {b : β} (h : good b) : Keeps (Pure.pure b : Run α σ β) good := by
  intro m hm
  refine ⟨hm, fun c m' hc => ?_⟩
  cases hc
  exact h

theorem throw (f : Fault α) : Keeps (MonadExcept.throw f : Run α σ β) good :=
  fun _ hm => ⟨hm, nofun⟩

end Keeps

/-- A step without a result keeps what it is to keep of the scope. -/
theorem keeps_unit {step : Run α σ Unit}
    (h : ∀ m : Machine σ, m.scope.Made → (after step m).scope.Made) :
    Keeps step fun _ => True :=
  fun m hm => ⟨h m hm, fun _ _ _ => trivial⟩

theorem value_keeps (e : Expr α) : Keeps (value e : Run α σ Value) Value.Made := by
  intro m hm
  rw [after_value]
  refine ⟨hm, fun v m' hv => ?_⟩
  cases he : e.eval m.scope with
  | ok w =>
    rw [value_of_ok he] at hv
    cases hv
    exact e.made_of_eval hm he
  | error f =>
    rw [value_of_error he] at hv
    cases hv

theorem rescope_keeps {a : α} {f : Scope Value → Except ScopeError (Scope Value)}
    (h : ∀ s s' : Scope Value, s.Made → f s = .ok s' → s'.Made) :
    Keeps (rescope a f : Run α σ Unit) fun _ => True := by
  refine keeps_unit fun m hm => ?_
  rcases after_rescope (m := m) (a := a) (f := f) with ⟨s, hs, hafter⟩ | hsame
  · rw [hafter]
    exact h _ _ hm hs
  · rw [hsame]
    exact hm

theorem declare_keeps (x : Ident α) {v : Value} (hv : v.Made) :
    Keeps (declare x v : Run α σ Unit) fun _ => True :=
  rescope_keeps fun _ _ hs => hs.declare hv

theorem assign_keeps (x : Ident α) {v : Value} (hv : v.Made) :
    Keeps (assign x v : Run α σ Unit) fun _ => True :=
  rescope_keeps fun _ _ hs => hs.update hv

theorem emit_keeps (sink : Sink σ) (a : α) (line : String) :
    Keeps (emit sink a line) fun _ => True := by
  refine keeps_unit fun m hm => ?_
  rw [emit_scope]
  exact hm

theorem inFrame_keeps {step : Run α σ Unit} (h : Keeps step fun _ => True) :
    Keeps (inFrame step) fun _ => True := by
  refine keeps_unit fun m hm => ?_
  rw [after_inFrame]
  exact (h (entered m) hm.enter).1.leave

theorem bindEntry_keeps (x : Ident α) (bound : Bool) (k : Int64) {v : Value} (hv : v.Made) :
    Keeps (bindEntry x bound k v : Run α σ Unit) fun _ => True := by
  cases bound with
  | true => exact assign_keeps x (.pair (.int k) hv)
  | false => exact declare_keeps x (.pair (.int k) hv)

theorem loop_keeps {x : Ident α} {body : Run α σ Unit} (hbody : Keeps body fun _ => True) :
    ∀ {d : Dict} {bound : Bool}, (∀ b ∈ d.toList, b.2.Made) →
      Keeps (loop x body bound d) fun _ => True
  | .nil, _, _ => .pure trivial
  | .cons k v rest, bound, hd => by
    rw [Dict.toList_cons, List.forall_mem_cons] at hd
    rw [loop_cons]
    refine (bindEntry_keeps x bound k hd.1).bind fun _ _ => hbody.bind fun _ _ => ?_
    exact loop_keeps hbody hd.2

mutual

/-- **Whatever is run makes the values of its variables.** -/
theorem stmt_keeps (sink : Sink σ) : ∀ s : Stmt α, Keeps (stmt sink s) fun _ => True
  | .var a x e => by
    rw [stmt]
    exact (value_keeps e).bind fun v hv => declare_keeps x hv
  | .assign a x e => by
    rw [stmt]
    exact (value_keeps e).bind fun v hv => assign_keeps x hv
  | .print a e => by
    rw [stmt]
    exact (value_keeps e).bind fun v _ => emit_keeps sink a _
  | .ifThen a c b => by
    rw [stmt]
    refine (value_keeps c).bind fun v _ => ?_
    cases Eval.needBool c.ann v with
    | error f => exact .throw f
    | ok cond =>
      cases cond with
      | true => exact block_keeps sink b
      | false => exact .pure trivial
  | .ifElse a c b b' => by
    rw [stmt]
    refine (value_keeps c).bind fun v _ => ?_
    cases Eval.needBool c.ann v with
    | error f => exact .throw f
    | ok cond =>
      cases cond with
      | true => exact block_keeps sink b
      | false => exact block_keeps sink b'
  | .forEach a x d b => by
    rw [stmt]
    refine (value_keeps d).bind fun v hv => ?_
    cases hd : Eval.needDict d.ann v with
    | error f => exact .throw f
    | ok dict =>
      cases Eval.needDict_eq_ok hd
      cases hv with
      | dict hdict => exact inFrame_keeps (loop_keeps (block_keeps sink b) hdict.values)
  | .block b => by
    rw [stmt]
    exact block_keeps sink b

theorem block_keeps (sink : Sink σ) : ∀ b : Block α, Keeps (block sink b) fun _ => True
  | .mk a s close => by
    rw [block]
    exact inFrame_keeps (seq_keeps sink s)

theorem seq_keeps (sink : Sink σ) : ∀ s : Seq α, Keeps (seq sink s) fun _ => True
  | .empty a => .pure trivial
  | .cons a s rest => by
    rw [seq]
    exact (stmt_keeps sink s).bind fun _ _ => seq_keeps sink rest

end

/-! ## Runs -/

section

variable {sink : Sink σ} {m m' : Machine σ} {step : Run α σ β} {good : β → Prop} {b : β}

theorem Keeps.made (h : Keeps step good) (hm : m.scope.Made) (hs : step m = .ok b m') :
    m'.scope.Made :=
  after_of_ok hs ▸ (h m hm).1

/-- The iterations of a loop start with variables whose values are made. -/
theorem Iterates.made {x : Ident α} {body : Run α σ Unit} {bound : Bool} {dict : Dict}
    (h : Iterates x body bound dict m m') (hbody : Keeps body fun _ => True)
    (hdict : ∀ b ∈ dict.toList, b.2.Made) (hm : m.scope.Made) : m'.scope.Made := by
  induction h with
  | here hbind =>
    rw [Dict.toList_cons, List.forall_mem_cons] at hdict
    exact (bindEntry_keeps _ _ _ hdict.1).made hm hbind
  | later hbind hrun _ ih =>
    rw [Dict.toList_cons, List.forall_mem_cons] at hdict
    exact ih hdict.2 (hbody.made ((bindEntry_keeps _ _ _ hdict.1).made hm hbind) hrun)

theorem Calls.made {n n' : Node α} {i : Nat} (h : Calls sink n m i n' m') (hm : m.scope.Made) :
    m'.scope.Made := by
  cases h with
  | program => exact .empty
  | rest hrun => exact (stmt_keeps sink _).made hm hrun
  | @forEachBody a x d b _ _ _ hd hiter =>
    cases d.made_of_eval hm hd with
    | dict hdict => exact hiter.made (block_keeps sink b) hdict.values hm.enter
  | block => exact hm.enter
  | _ => exact hm

/-- Whatever is reached from variables whose values are made has such variables. -/
theorem along_made {n n' : Node α} {path : List Nat} (h : Along (Calls sink) n m path n' m')
    (hm : m.scope.Made) : m'.scope.Made := by
  induction h with
  | here => exact hm
  | down hcall _ ih => exact ih (hcall.made hm)

end

end Exec

/-- **Wherever the run of a program gets, the values of its variables are made.** -/
theorem Program.run_made {p : Program α} {sink : Sink σ} {out : σ} {path : List Nat} {n : Node α}
    {m : Machine σ} (h : Along (Exec.Calls sink) (.program p) ⟨.empty, out⟩ path n m) :
    m.scope.Made :=
  Exec.along_made h .empty

end PairDict
