import PairDict.Command
import PairDict.Proofs.Files.Written

/-! # Jobs

A command that is not asked for help, for its version or for a session has one **job**: to
show the tokens of a source, its tree, or its tree with types, or to run it.  What a job puts
out if nothing goes wrong is its **product**; a source that is at fault has none, and neither
has a tree that is too deep for a document.  The output of a job is **due** once there is
something to put out.  Not all jobs report that they could
not create the file for it: some **drop** it.

A job `Settles` with an outcome as follows.

* `delivered`: a product goes to an output that takes it, and the exit code is 0.
* `failed`: without a product the exit code is 1.
* `refused`: if the output cannot be created, everything stays as it was.
* `dropped`: a product that is dropped leaves the exit code at 0, and nothing is said.
* `reported`: for a job that does not drop its output, the exit code is 1, and what stands in
  the way is reported.
-/
namespace PairDict

variable {σ : Type}

namespace Pipeline

variable {typecheck : Bool} {sink : Sink σ} {out out' : σ} {src : Source} {f : Failure}
  {p : Program Pos}

/-- The program of a source that passes every phase before the last. -/
def ready (typecheck : Bool) (src : Source) : Except Failure (Program Pos) := do
  let p ← parse src
  check typecheck p
  return p

theorem ready_of_parse_error (h : parse src = .error f) : ready typecheck src = .error f := by
  rw [ready, h]
  rfl

theorem ready_of_check_error (h : parse src = .ok p) (hcheck : check typecheck p = .error f) :
    ready typecheck src = .error f := by
  rw [ready, h]
  dsimp only [bind, Except.bind]
  rw [hcheck]

theorem ready_of_check (h : parse src = .ok p) (hcheck : check typecheck p = .ok ()) :
    ready typecheck src = .ok p := by
  rw [ready, h]
  dsimp only [bind, Except.bind]
  rw [hcheck]
  rfl

/-- A run is what `execute` makes of a program that is ready. -/
theorem run_eq_of_ready (h : ready typecheck src = .ok p) :
    run typecheck sink out src = execute sink out p := by
  cases hparse : parse src with
  | error f =>
    rw [ready_of_parse_error hparse] at h
    cases h
  | ok p' =>
    cases hcheck : check typecheck p' with
    | error f =>
      rw [ready_of_check_error hparse hcheck] at h
      cases h
    | ok _ =>
      rw [ready_of_check hparse hcheck] at h
      cases h
      rw [run, hparse]
      dsimp only
      rw [hcheck]

theorem run_eq_of_ready_error (h : ready typecheck src = .error f) :
    run typecheck sink out src = (.error f, out) := by
  cases hparse : parse src with
  | error f' =>
    rw [ready_of_parse_error hparse] at h
    cases h
    rw [run, hparse]
  | ok p' =>
    cases hcheck : check typecheck p' with
    | error f' =>
      rw [ready_of_check_error hparse hcheck] at h
      cases h
      rw [run, hparse]
      dsimp only
      rw [hcheck]
    | ok _ =>
      rw [ready_of_check hparse hcheck] at h
      cases h

/-- What keeps a program from being ready is no fault of a run. -/
theorem phase_of_ready_error (h : ready typecheck src = .error f) : f.phase ≠ .execute := by
  cases hparse : parse src with
  | error f' =>
    rw [ready_of_parse_error hparse] at h
    cases h
    unfold parse at hparse
    split at hparse
    · cases hparse
    · next e _ =>
      cases hparse
      cases e with
      | scan e => nofun
      | parse e => nofun
  | ok p' =>
    cases hcheck : check typecheck p' with
    | error f' =>
      rw [ready_of_check_error hparse hcheck] at h
      cases h
      unfold check at hcheck
      split at hcheck
      · split at hcheck
        · cases hcheck
        · cases hcheck
          nofun
      · cases hcheck
    | ok _ =>
      rw [ready_of_check hparse hcheck] at h
      cases h

theorem phase_of_execute_error (h : execute sink out p = (.error f, out')) :
    f.phase = .execute := by
  unfold execute at h
  split at h
  · cases h
  · cases h
    rfl

end Pipeline

namespace Command

variable {host : Host} {o : Options} {s : Settings} {src : Source} {files : Files}
  {output : String} {bytes stderr : List UInt8} {d : Dest}

/-! ## Output -/

/-- The output has got the bytes and nothing but them, and nothing else has changed: they
went to standard output and the files are as they were, or they are what is read under the
path of the output file, and every other place is as it was. -/
def Delivers (output : String) (files : Files) (bytes : List UInt8) (r : Outcome) : Prop :=
  if output = "" then r.stdout = bytes ∧ r.files = files
  else r.stdout = [] ∧ r.files.openFor output = .ok (.file bytes none) ∧
    r.files.current = files.current ∧
    ∃ place, files.target output = .ok place ∧ ∀ q, q ≠ place → r.files.entry? q = files.entry? q

/-- **A destination delivers.** -/
theorem deliver_delivers (h : dest output files = .ok d) (code : Nat)
    (bytes stderr : List UInt8) :
    Delivers output files bytes (d.deliver code bytes stderr files) := by
  unfold dest at h
  split at h
  · next hout =>
    cases h
    rw [Delivers, if_pos hout]
    exact ⟨rfl, rfl⟩
  · next hout =>
    cases htarget : files.target output with
    | error e =>
      rw [htarget] at h
      cases h
    | ok place =>
      rw [htarget] at h
      cases h
      rw [Delivers, if_neg hout]
      exact ⟨rfl, Files.openFor_put htarget bytes, rfl, place, htarget,
        fun q hq => Files.entry?_put_of_ne hq bytes⟩

@[simp] theorem code_deliver (d : Dest) (code : Nat) (bytes stderr : List UInt8) (files : Files) :
    (d.deliver code bytes stderr files).code = code := by
  cases d <;> rfl

@[simp] theorem stderr_deliver (d : Dest) (code : Nat) (bytes stderr : List UInt8)
    (files : Files) : (d.deliver code bytes stderr files).stderr = stderr := by
  cases d <;> rfl

theorem traced_of_not_trace (h : s.trace = false) (ps : List Phase) : traced host s ps = [] := by
  rw [traced, h]
  rfl

/-! ## Jobs -/

/-- What a command does with a source. -/
inductive Job where
  /-- It shows the tokens. -/
  | tokens
  /-- It shows the tree. -/
  | tree (format : TreeFormat)
  /-- It shows the tree with the types of its expressions. -/
  | typed
  /-- It runs the program. -/
  | run

/-- The job that a command is given. -/
def job (o : Options) (s : Settings) : Job :=
  if o.tokens then .tokens
  else if o.tree then .tree s.treeFormat
  else if o.typedTree then .typed
  else .run

namespace Job

/-- All that a job puts out, if there is no fault in the source. -/
def product (s : Settings) (src : Source) : Job → Option (List UInt8)
  | .tokens =>
    match src.tokens.failure? with
    | none => some (Utf8.ofString (tokenHead ++ tokenRows src.tokens))
    | some _ => none
  | .tree .outline =>
    match Pipeline.parse src with
    | .ok p => some (Utf8.ofString (Outline.render (p.outline Pos.text)))
    | .error _ => none
  | .tree .json =>
    match Pipeline.parse src with
    | .ok p =>
      match (p.toJson Pos.text).document with
      | .ok text => some (Utf8.ofString text)
      | .error _ => none
    | .error _ => none
  | .typed =>
    match Pipeline.parse src with
    | .ok p =>
      match p.check with
      | (.ok _, noted) => some (Utf8.ofString (Outline.render (noted.outline Note.label)))
      | (.error _, _) => none
    | .error _ => none
  | .run =>
    match Pipeline.run s.typecheck .all "" src with
    | (.ok _, out) => some (Utf8.ofString out)
    | (.error _, _) => none

/-- There is something to put out: the table of the tokens has a head before anything was
read, a tree has to be parsed, and checked if it is to be shown with types, a document has to
be written, and a program that runs has passed the phases before that. -/
def Due (s : Settings) (src : Source) : Job → Prop
  | .tokens => True
  | .tree .outline => ∃ p, Pipeline.parse src = .ok p
  | .tree .json => ∃ p text, Pipeline.parse src = .ok p ∧
      (p.toJson Pos.text).document = .ok text
  | .typed => ∃ p, Pipeline.ready true src = .ok p
  | .run => ∃ p, Pipeline.ready s.typecheck src = .ok p

/-- Whether a job says nothing when its output cannot be created. -/
def drops : Job → Bool
  | .tokens => true
  | .tree format => format = .outline
  | .typed => true
  | .run => false

/-- What becomes of a job. -/
structure Settles (t : Job) (o : Options) (s : Settings) (src : Source) (files : Files)
    (r : Outcome) : Prop where
  delivered : ∀ bytes d, t.product s src = some bytes → dest o.output files = .ok d →
    r.code = 0 ∧ Delivers o.output files bytes r
  failed : t.product s src = none → r.code = 1
  refused : ∀ e, dest o.output files = .error e → r.stdout = [] ∧ r.files = files
  dropped : ∀ e bytes, dest o.output files = .error e → t.drops = true →
    t.product s src = some bytes → r.code = 0 ∧ (s.trace = false → r.stderr = [])
  reported : ∀ e, dest o.output files = .error e → t.drops = false → t.Due s src →
    r.code = 1 ∧ ∃ trace, r.stderr = trace ++ Diagnostics.fatal s.color e.message ∧
      (s.trace = false → trace = [])

namespace Settles

variable {t : Job} {e : FileError}

/-- The job ends before its output is due. -/
theorem of_failure (hproduct : t.product s src = none) (hdue : t.drops = false → ¬ t.Due s src) :
    Settles t o s src files { code := 1, stderr, files } where
  delivered bytes d h := by
    rw [hproduct] at h
    cases h
  failed _ := rfl
  refused e _ := ⟨rfl, rfl⟩
  dropped e bytes _ _ h := by
    rw [hproduct] at h
    cases h
  reported e _ hdrops h := absurd h (hdue hdrops)

/-- The job puts out something, and is at fault later. -/
theorem of_fault (hproduct : t.product s src = none) (hdest : dest o.output files = .ok d) :
    Settles t o s src files (d.deliver 1 bytes stderr files) where
  delivered bytes d h := by
    rw [hproduct] at h
    cases h
  failed _ := code_deliver ..
  refused e he := by
    rw [hdest] at he
    cases he
  dropped e bytes _ _ h := by
    rw [hproduct] at h
    cases h
  reported e he := by
    rw [hdest] at he
    cases he

/-- The job puts out its product. -/
theorem of_delivery (hproduct : t.product s src = some bytes)
    (hdest : dest o.output files = .ok d) :
    Settles t o s src files (d.deliver 0 bytes stderr files) where
  delivered bytes' d' h _ := by
    rw [hproduct] at h
    cases h
    exact ⟨code_deliver .., deliver_delivers hdest 0 bytes stderr⟩
  failed h := by
    rw [hproduct] at h
    cases h
  refused e he := by
    rw [hdest] at he
    cases he
  dropped e bytes he := by
    rw [hdest] at he
    cases he
  reported e he := by
    rw [hdest] at he
    cases he

/-- The job drops its product. -/
theorem of_dropping (hdrops : t.drops = true) (hproduct : t.product s src = some bytes)
    (hdest : dest o.output files = .error e) (hquiet : s.trace = false → stderr = []) :
    Settles t o s src files { code := 0, stderr, files } where
  delivered bytes' d _ hd := by
    rw [hdest] at hd
    cases hd
  failed h := by
    rw [hproduct] at h
    cases h
  refused _ _ := ⟨rfl, rfl⟩
  dropped _ _ _ _ _ := ⟨rfl, hquiet⟩
  reported _ _ h := by
    rw [hdrops] at h
    cases h

/-- The job reports that its output cannot be created. -/
theorem of_refusal (hdrops : t.drops = false) (hdest : dest o.output files = .error e)
    (ps : List Phase) :
    Settles t o s src files
      { code := 1, files, stderr := traced host s ps ++ Diagnostics.fatal s.color e.message } where
  delivered bytes d _ hd := by
    rw [hdest] at hd
    cases hd
  failed _ := rfl
  refused _ _ := ⟨rfl, rfl⟩
  dropped _ _ _ h := by
    rw [hdrops] at h
    cases h
  reported e' he _ _ := by
    rw [hdest] at he
    cases he
    exact ⟨rfl, _, rfl, fun h => traced_of_not_trace h ps⟩

/-- The job puts out its product where it can, and drops it otherwise. -/
theorem of_present (hdrops : t.drops = true) (hproduct : t.product s src = some bytes)
    (hquiet : s.trace = false → stderr = []) :
    Settles t o s src files (present o 0 bytes stderr files) := by
  unfold present
  split
  · next d hdest => exact of_delivery hproduct hdest
  · next e hdest => exact of_dropping hdrops hproduct hdest hquiet

end Settles

end Job

/-! ## Every job settles -/

open Job (Settles)

theorem showTokens_settles (o : Options) (s : Settings) (src : Source) (files : Files) :
    Settles .tokens o s src files (showTokens o s src files) := by
  unfold showTokens
  dsimp only
  split
  · next hnone =>
    refine .of_present rfl ?_ fun _ => rfl
    rw [Job.product, hnone]
  · next e hsome =>
    have hproduct : Job.product s src .tokens = none := by rw [Job.product, hsome]
    -- the rows before the failure are put out all the same
    unfold present
    split
    · next d hdest => exact .of_fault hproduct hdest
    · exact .of_failure hproduct nofun

theorem showTree_settles (host : Host) (o : Options) (s : Settings) (src : Source)
    (files : Files) :
    Settles (.tree s.treeFormat) o s src files (showTree host o s src files) := by
  unfold showTree
  dsimp only
  cases hparse : Pipeline.parse src with
  | error f =>
    cases s.treeFormat with
    | outline =>
      refine .of_failure ?_ nofun
      rw [Job.product, hparse]
    | json =>
      refine .of_failure ?_ ?_
      · rw [Job.product, hparse]
      · rintro - ⟨p, text, hp, -⟩
        rw [hparse] at hp
        cases hp
  | ok p =>
    dsimp only
    cases s.treeFormat with
    | outline =>
      refine .of_present rfl ?_ fun h => traced_of_not_trace h _
      rw [Job.product, hparse]
    | json =>
      dsimp only
      cases hdocument : (p.toJson Pos.text).document with
      | error e =>
        refine .of_failure ?_ ?_
        · rw [Job.product, hparse]
          dsimp only
          rw [hdocument]
        · rintro - ⟨p', text, hp, htext⟩
          rw [hparse] at hp
          cases hp
          rw [hdocument] at htext
          cases htext
      | ok text =>
        dsimp only
        cases hdest : dest o.output files with
        | error e => exact .of_refusal rfl hdest [.parse]
        | ok d =>
          refine .of_delivery ?_ hdest
          rw [Job.product, hparse]
          dsimp only
          rw [hdocument]

theorem showTyped_settles (host : Host) (o : Options) (s : Settings) (src : Source)
    (files : Files) : Settles .typed o s src files (showTyped host o s src files) := by
  unfold showTyped
  cases hparse : Pipeline.parse src with
  | error f =>
    refine .of_failure ?_ nofun
    rw [Job.product, hparse]
  | ok p =>
    dsimp only
    cases hcheck : p.check with
    | mk result tree =>
      cases result with
      | error e =>
        refine .of_failure ?_ nofun
        rw [Job.product, hparse]
        dsimp only
        rw [hcheck]
      | ok _ =>
        refine .of_present rfl ?_ fun h => traced_of_not_trace h _
        rw [Job.product, hparse]
        dsimp only
        rw [hcheck]

/-- What `execute` does, by how far the program gets. -/
theorem execute_cases (host : Host) (o : Options) (s : Settings) (src : Source) (files : Files) :
    (∃ f, Pipeline.ready s.typecheck src = .error f ∧ execute host o s src files =
      { code := 1, files, stderr := traced host s (Trace.entered s.typecheck (.error f)) ++
          Diagnostics.failure s.color f }) ∨
    ∃ p, Pipeline.ready s.typecheck src = .ok p ∧
      ((∃ e ps, dest o.output files = .error e ∧ execute host o s src files =
        { code := 1, files, stderr := traced host s ps ++ Diagnostics.fatal s.color e.message }) ∨
      ∃ d ps result out, dest o.output files = .ok d ∧
        Pipeline.execute .all "" p = (result, out) ∧
        ((result = .ok () ∧ execute host o s src files =
          d.deliver 0 (Utf8.ofString out) (traced host s ps) files) ∨
        ∃ f, result = .error f ∧ execute host o s src files =
          d.deliver 1 (Utf8.ofString out) (traced host s ps ++ Diagnostics.failure s.color f)
            files)) := by
  have hchecked : (do
      let p ← Pipeline.parse src
      Pipeline.check s.typecheck p
      return p) = Pipeline.ready s.typecheck src := rfl
  unfold execute
  rw [hchecked]
  cases hready : Pipeline.ready s.typecheck src with
  | error f => exact .inl ⟨f, rfl, rfl⟩
  | ok p =>
    refine .inr ⟨p, rfl, ?_⟩
    dsimp only
    cases hdest : dest o.output files with
    | error e => exact .inl ⟨e, _, rfl, rfl⟩
    | ok d =>
      dsimp only
      cases hrun : Pipeline.execute Sink.all "" p with
      | mk result out =>
        cases result with
        | ok _ => exact .inr ⟨d, _, _, out, rfl, rfl, .inl ⟨rfl, rfl⟩⟩
        | error f => exact .inr ⟨d, _, _, out, rfl, rfl, .inr ⟨f, rfl, rfl⟩⟩

theorem execute_settles (host : Host) (o : Options) (s : Settings) (src : Source)
    (files : Files) : Settles .run o s src files (execute host o s src files) := by
  rcases execute_cases host o s src files with ⟨f, hready, hr⟩ | ⟨p, hready, ⟨e, ps, hdest, hr⟩ |
    ⟨d, ps, result, out, hdest, hexecute, ⟨rfl, hr⟩ | ⟨f, rfl, hr⟩⟩⟩
  · rw [hr]
    refine .of_failure ?_ ?_
    · rw [Job.product, Pipeline.run_eq_of_ready_error hready]
    · rintro - ⟨p, hp⟩
      rw [hready] at hp
      cases hp
  · rw [hr]
    exact .of_refusal rfl hdest ps
  · rw [hr]
    refine .of_delivery ?_ hdest
    rw [Job.product, Pipeline.run_eq_of_ready hready, hexecute]
  · rw [hr]
    refine .of_fault ?_ hdest
    rw [Job.product, Pipeline.run_eq_of_ready hready, hexecute]

/-! ## The command -/

variable {args : List String} {stdin : Delivery}

/-- A command that has a job reads its settings and its source first. -/
theorem run_eq_of_source (hparse : Options.parse args = .ok o) (hhelp : o.help = false)
    (hversion : o.version = false) (hsession : o.interactive = false)
    (hsettings : settings o files = .ok s) (hsource : source o stdin files = .ok src) :
    run host args stdin files =
      if o.tokens then showTokens o s src files
      else if o.tree then showTree host o s src files
      else if o.typedTree then showTyped host o s src files
      else execute host o s src files := by
  rw [run, hparse]
  dsimp only
  rw [hhelp, hversion, hsettings]
  dsimp only [Bool.false_eq_true, if_false]
  rw [hsession, hsource]
  rfl

/-- **The job of a command settles with its outcome.** -/
theorem run_settles (host : Host) (hparse : Options.parse args = .ok o) (hhelp : o.help = false)
    (hversion : o.version = false) (hsession : o.interactive = false)
    (hsettings : settings o files = .ok s) (hsource : source o stdin files = .ok src) :
    Settles (job o s) o s src files (run host args stdin files) := by
  rw [run_eq_of_source hparse hhelp hversion hsession hsettings hsource, job]
  split
  · exact showTokens_settles o s src files
  · split
    · exact showTree_settles host o s src files
    · split
      · exact showTyped_settles host o s src files
      · exact execute_settles host o s src files

/-- Without settings or a source the exit code is 1. -/
theorem source_of_code_zero (hparse : Options.parse args = .ok o) (hhelp : o.help = false)
    (hversion : o.version = false) (hsession : o.interactive = false)
    (hcode : (run host args stdin files).code = 0) :
    ∃ s src, settings o files = .ok s ∧ source o stdin files = .ok src := by
  cases hsettings : settings o files with
  | error m =>
    rw [run, hparse] at hcode
    dsimp only at hcode
    rw [hhelp, hversion, hsettings] at hcode
    cases hcode
  | ok s =>
    cases hsource : source o stdin files with
    | error e =>
      rw [run, hparse] at hcode
      dsimp only at hcode
      rw [hhelp, hversion, hsettings] at hcode
      dsimp only [Bool.false_eq_true, if_false] at hcode
      rw [hsession, hsource] at hcode
      cases hcode
    | ok src => exact ⟨s, src, rfl, rfl⟩

end Command

end PairDict
