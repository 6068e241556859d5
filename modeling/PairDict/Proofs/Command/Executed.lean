import PairDict.Proofs.Command.Job
import PairDict.Proofs.Pipeline.Located

/-! # Running a program from the command line

A command that runs a program does what `Pipeline.run` does with its source.  The output gets
what the program printed; what the run fails with is reported, and the exit code says whether
it failed.  The output file is emptied when the program starts, so it holds what was printed
by a program that fails later, or that prints nothing, also where it is the file of the program
itself; and a program that does not get so far leaves it alone.

A program whose tree is shown leaves the output file alone as well, if it cannot be parsed, or
checked where types are asked for.
-/
namespace PairDict.Command

variable {host : Host} {args : List String} {stdin : Delivery} {o : Options} {s : Settings}
  {src : Source} {files : Files} {output : String} {bytes : List UInt8} {r : Outcome}

/-- What a run reports when it has ended. -/
def report : Except Failure Unit → List UInt8
  | .ok _ => []
  | .error f => Utf8.ofString (f.phase.text ++ " error: ") ++ f.message ++ Utf8.ofString "\n"

theorem failure_of_not_isColored (h : Diagnostics.isColored s.color = false) (f : Failure) :
    Diagnostics.failure s.color f = report (.error f) := by
  have hlabel : "" ++ (f.phase.text ++ " error:") ++ " " = f.phase.text ++ " error: " := by
    cases f.phase <;> decide
  rw [Diagnostics.failure, Diagnostics.line, h, if_neg Bool.false_ne_true, hlabel]
  rfl

theorem Delivers.stdout_eq (h : Delivers output files bytes r) :
    r.stdout = if output = "" then bytes else [] := by
  unfold Delivers at h
  split at h
  · next hout =>
    rw [if_pos hout]
    exact h.1
  · next hout =>
    rw [if_neg hout]
    exact h.1

/-- A program that cannot be parsed or checked has no typed tree to show: this ends the command,
and nothing is written. -/
theorem showTyped_of_ready_error {f : Failure} (h : Pipeline.ready true src = .error f) :
    (showTyped host o s src files).code = 1 ∧ (showTyped host o s src files).stdout = [] ∧
      (showTyped host o s src files).files = files := by
  unfold showTyped
  cases hparsed : Pipeline.parse src with
  | error f' => exact ⟨rfl, rfl, rfl⟩
  | ok p =>
    dsimp only
    cases hcheck : p.check with
    | mk result tree =>
      cases result with
      | error e => exact ⟨rfl, rfl, rfl⟩
      | ok _ =>
        have hready : Pipeline.ready true src = .ok p := by
          refine Pipeline.ready_of_check hparsed ?_
          rw [Pipeline.check, if_pos rfl, hcheck]
        rw [hready] at h
        cases h

/-- **A command that runs a program does what the pipeline does**: its exit code, what it
reports and what its output gets are those of `Pipeline.run`.  The files stay as they were if
the run ends before its last phase; if it gets there, the output file holds just what was
printed.  They also stay as they were if a tree that was to be shown cannot be parsed, or
checked where it is to be shown with types. -/
theorem run_executes (host : Host) (hparse : Options.parse args = .ok o)
    (hhelp : o.help = false) (hversion : o.version = false) (hsession : o.interactive = false)
    (htokens : o.tokens = false) (hsettings : settings o files = .ok s)
    (hsource : source o stdin files = .ok src) :
    (o.tree = false → o.typedTree = false → s.trace = false →
      Diagnostics.isColored s.color = false → ∀ d, dest o.output files = .ok d →
      ∀ result out, Pipeline.run s.typecheck .all "" src = (result, out) →
        ((run host args stdin files).code = 0 ↔ result = .ok ()) ∧
        (run host args stdin files).code ≤ 1 ∧
        (run host args stdin files).stderr = report result ∧
        (run host args stdin files).stdout =
          (if o.output = "" then Utf8.ofString out else []) ∧
        ((∃ f, result = .error f ∧ f.phase ≠ .execute) →
          (run host args stdin files).files = files) ∧
        ((∀ f, result = .error f → f.phase = .execute) →
          Delivers o.output files (Utf8.ofString out) (run host args stdin files))) ∧
    (o.tree = true → ∀ f, Pipeline.parse src = .error f →
      (run host args stdin files).code = 1 ∧ (run host args stdin files).stdout = [] ∧
      (run host args stdin files).files = files) ∧
    (o.tree = false → o.typedTree = true → ∀ f, Pipeline.ready true src = .error f →
      (run host args stdin files).code = 1 ∧ (run host args stdin files).stdout = [] ∧
      (run host args stdin files).files = files) := by
  rw [run_eq_of_source hparse hhelp hversion hsession hsettings hsource, htokens,
    if_neg Bool.false_ne_true]
  refine ⟨fun htree htyped htrace hcolor d hdest result out hrun => ?_, fun htree f hf => ?_,
    fun htree htyped f hf => ?_⟩
  · rw [htree, htyped, if_neg Bool.false_ne_true, if_neg Bool.false_ne_true]
    rcases execute_cases host o s src files with ⟨f, hready, hr⟩ | ⟨p, hready, ⟨e, ps, he, hr⟩ |
      ⟨d', ps, result', out', hdest', hexecute, ⟨rfl, hr⟩ | ⟨f, rfl, hr⟩⟩⟩
    · -- the last phase does not begin
      rw [Pipeline.run_eq_of_ready_error hready] at hrun
      cases hrun
      rw [hr, traced_of_not_trace htrace, failure_of_not_isColored hcolor]
      refine ⟨iff_of_false nofun nofun, Nat.le_refl 1, rfl, ?_, fun _ => rfl, fun h => ?_⟩
      · split <;> rfl
      · exact absurd (h f rfl) (Pipeline.phase_of_ready_error hready)
    · -- the output can be created, so the run is not refused
      rw [hdest] at he
      cases he
    · rw [Pipeline.run_eq_of_ready hready, hexecute] at hrun
      cases hrun
      have hdelivers := deliver_delivers hdest' 0 (Utf8.ofString out) (traced host s ps)
      rw [hr, hdelivers.stdout_eq, code_deliver, stderr_deliver, traced_of_not_trace htrace]
      rw [traced_of_not_trace htrace] at hdelivers
      refine ⟨iff_of_true rfl rfl, Nat.zero_le 1, rfl, rfl, ?_, fun _ => hdelivers⟩
      rintro ⟨f, hf, -⟩
      cases hf
    · have hphase := Pipeline.phase_of_execute_error hexecute
      rw [Pipeline.run_eq_of_ready hready, hexecute] at hrun
      cases hrun
      have hdelivers := deliver_delivers hdest' 1 (Utf8.ofString out)
        (traced host s ps ++ Diagnostics.failure s.color f)
      rw [hr, hdelivers.stdout_eq, code_deliver, stderr_deliver, traced_of_not_trace htrace,
        failure_of_not_isColored hcolor]
      rw [traced_of_not_trace htrace, failure_of_not_isColored hcolor] at hdelivers
      refine ⟨iff_of_false nofun nofun, Nat.le_refl 1, rfl, rfl, ?_, fun _ => hdelivers⟩
      rintro ⟨f', hf, hne⟩
      cases hf
      exact absurd hphase hne
  · rw [htree, if_pos rfl, showTree, hf]
    exact ⟨rfl, rfl, rfl⟩
  · rw [htree, htyped, if_neg Bool.false_ne_true, if_pos rfl]
    exact showTyped_of_ready_error hf

/-- Unchecked, `print x` runs and fails; where its output goes to its own file, the file is
empty afterwards. -/
theorem run_executes_ownFile :
    let host : Host := ⟨none, "", fun _ => ""⟩
    let files : Files := ⟨[], [(["f"], .file (Utf8.ofString "print x") none)]⟩
    let r := run host ["-n", "-o", "f", "f"] ⟨[], none⟩ files
    r.code ≠ 0 ∧ r.stdout = [] ∧
      r.stderr = Utf8.ofString "execute error: f:1:7: undeclared name: x\n" ∧
      r.files.openFor "f" = .ok (.file [] none) := by
  intro host files r
  have hparse : Options.parse ["-n", "-o", "f", "f"] =
      .ok { noTypecheck := true, output := "f", input := "f" } := rfl
  have hdest : dest "f" files = .ok (.place ["f"]) := rfl
  have hsource : source { noTypecheck := true, output := "f", input := "f" } ⟨[], none⟩ files =
      .ok Pipeline.printName := rfl
  have hrun : Pipeline.run false .all "" Pipeline.printName =
      (.error (.execute ⟨⟨"f", 1, 7⟩, .scope (.undeclared "x")⟩), "") := by
    rw [Pipeline.run, Pipeline.parse_printName]
    rfl
  obtain ⟨hcode, -, hstderr, hstdout, -, hdelivers⟩ :=
    (run_executes host hparse rfl rfl rfl rfl rfl hsource).1 rfl rfl rfl rfl _ hdest _ _ hrun
  have hdelivered := hdelivers (by rintro _ ⟨⟩; rfl)
  rw [Delivers, if_neg (by decide)] at hdelivered
  refine ⟨fun h => ?_, hstdout, hstderr.trans ?_, hdelivered.2.1⟩
  · cases hcode.1 h
  · decide +kernel

end PairDict.Command
