import PairDict.Proofs.Command.Job

/-! # An exit code of zero

A command whose exit code is 0 has found no fault in its source, and its output has got all of
its product, with one exception: the jobs that drop their output report success when the file
for it cannot be created.  A run and a JSON document do not; they report it, with an exit code
of 1.

So the exit code of a listing of tokens or of an outline tells whether the source is at fault,
and not whether the output was delivered.
-/
namespace PairDict.Command

variable {host : Host} {args : List String} {o : Options} {s : Settings} {src : Source}
  {bytes : List UInt8}

/-- The output of a product is due. -/
theorem Job.due_of_product {t : Job} (h : t.product s src = some bytes) : t.Due s src := by
  cases t with
  | tokens => trivial
  | tree format =>
    cases hparse : Pipeline.parse src with
    | error f =>
      cases format <;>
      · rw [product, hparse] at h
        cases h
    | ok p =>
      cases format with
      | outline => exact ⟨p, hparse⟩
      | json =>
        rw [product, hparse] at h
        dsimp only at h
        split at h
        · next text hdocument => exact ⟨p, text, hparse, hdocument⟩
        · cases h
  | typed =>
    cases hparse : Pipeline.parse src with
    | error f =>
      rw [product, hparse] at h
      cases h
    | ok p =>
      rw [product, hparse] at h
      dsimp only at h
      split at h
      · next hcheck =>
        refine ⟨p, Pipeline.ready_of_check hparse ?_⟩
        rw [Pipeline.check, if_pos rfl, hcheck]
      · cases h
  | run =>
    cases hready : Pipeline.ready s.typecheck src with
    | ok p => exact ⟨p, hready⟩
    | error f =>
      rw [product, Pipeline.run_eq_of_ready_error hready] at h
      cases h

/-- **An exit code of zero means that all output was delivered, or that it was dropped.**  If
the output cannot be created, then nothing changes; when it is due, this is reported with an
exit code of 1, unless the job drops its output: then the exit code is 0 all the same, and
nothing is said. -/
theorem run_delivers_or_drops (host : Host) (hparse : Options.parse args = .ok o)
    (hhelp : o.help = false) (hversion : o.version = false) (hsession : o.interactive = false)
    (stdin : Delivery) (files : Files) :
    ((run host args stdin files).code = 0 → ∃ s src bytes,
      settings o files = .ok s ∧ source o stdin files = .ok src ∧
      (job o s).product s src = some bytes ∧
      (Delivers o.output files bytes (run host args stdin files) ∨
        (job o s).drops = true ∧ ∃ e, dest o.output files = .error e)) ∧
    ∀ s src e, settings o files = .ok s → source o stdin files = .ok src →
      dest o.output files = .error e →
      (run host args stdin files).stdout = [] ∧ (run host args stdin files).files = files ∧
      ((job o s).drops = false → (job o s).Due s src →
        (run host args stdin files).code = 1 ∧
        ∃ trace, (run host args stdin files).stderr =
            trace ++ Diagnostics.fatal s.color e.message ∧ (s.trace = false → trace = [])) ∧
      ((job o s).drops = true → ∀ bytes, (job o s).product s src = some bytes →
        (run host args stdin files).code = 0 ∧
          (s.trace = false → (run host args stdin files).stderr = [])) := by
  constructor
  · intro hcode
    obtain ⟨s, src, hsettings, hsource⟩ := source_of_code_zero hparse hhelp hversion hsession hcode
    have hsettles := run_settles host hparse hhelp hversion hsession hsettings hsource
    cases hproduct : (job o s).product s src with
    | none =>
      rw [hsettles.failed hproduct] at hcode
      cases hcode
    | some bytes =>
      refine ⟨s, src, bytes, hsettings, hsource, hproduct, ?_⟩
      cases hdest : dest o.output files with
      | ok d => exact .inl (hsettles.delivered bytes d hproduct hdest).2
      | error e =>
        refine .inr ⟨?_, e, rfl⟩
        cases hdrops : (job o s).drops with
        | true => rfl
        | false =>
          rw [(hsettles.reported e hdest hdrops (Job.due_of_product hproduct)).1] at hcode
          cases hcode
  · intro s src e hsettings hsource hdest
    have hsettles := run_settles host hparse hhelp hversion hsession hsettings hsource
    obtain ⟨hstdout, hfiles⟩ := hsettles.refused e hdest
    exact ⟨hstdout, hfiles, hsettles.reported e hdest,
      fun hdrops bytes hproduct => hsettles.dropped e bytes hdest hdrops hproduct⟩

/-- Where a directory stands in the way of the output, the tokens of `print 1` are dropped,
and the exit code is 0. -/
theorem run_delivers_or_drops_directory :
    let host : Host := ⟨none, "", fun _ => ""⟩
    let files : Files := ⟨[], [(["d"], .dir), (["p"], .file (Utf8.ofString "print 1") none)]⟩
    let r := run host ["-t", "-o", "d", "p"] ⟨[], none⟩ files
    dest "d" files = .error ⟨"open", "d", .isDirectory⟩ ∧
      r.code = 0 ∧ r.stdout = [] ∧ r.stderr = [] ∧ r.files = files := by
  intro host files r
  have hparse : Options.parse ["-t", "-o", "d", "p"] =
      .ok { tokens := true, output := "d", input := "p" } := rfl
  have hdest : dest "d" files = .error ⟨"open", "d", .isDirectory⟩ := rfl
  have hsource : source { tokens := true, output := "d", input := "p" } ⟨[], none⟩ files =
      .ok ⟨"p", Utf8.ofString "print 1", none⟩ := rfl
  have hread : (Source.mk "p" (Utf8.ofString "print 1") none).tokens.failure? = none := by
    decide +kernel
  have hproduct : Job.product {} ⟨"p", Utf8.ofString "print 1", none⟩ .tokens = some
      (Utf8.ofString (tokenHead ++ tokenRows
        (Source.mk "p" (Utf8.ofString "print 1") none).tokens)) := by
    rw [Job.product, hread]
  have hdelivers := run_delivers_or_drops host hparse rfl rfl rfl ⟨[], none⟩ files
  obtain ⟨hstdout, hfiles, -, hdrops⟩ := hdelivers.2 {} _ _ rfl hsource hdest
  obtain ⟨hcode, hstderr⟩ := hdrops rfl _ hproduct
  exact ⟨hdest, hcode, hstdout, hstderr rfl, hfiles⟩

end PairDict.Command
