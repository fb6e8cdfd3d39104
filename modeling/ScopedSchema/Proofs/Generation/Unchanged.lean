import ScopedSchema.Inspection
import ScopedSchema.Proofs.Generation.Check

/-!
# Runs that change nothing

Checking, printing and inspecting read documents and modules and write nothing, whatever becomes of
the targets. Nor does a run that ends before its targets. Such a run can be told by its report: its
one error is of no target, while every error of a job names the model of its target.
-/

namespace ScopedSchema

open Generation

/-- What printing says about one job. -/
def Job.printed (job : Job) : TargetReport :=
  match job.module with
  | .error cause => failure (.generation job.model cause)
  | .ok text => { outcome := .written, output := text }

theorem run_print (job : Job) (store : FileStore) :
    (job.run .print).run store = (job.printed, store) := by
  unfold Job.run Job.printed
  cases job.module <;> rfl

/-- What a run reports that writes no files. -/
def GenerateOptions.seen (options : GenerateOptions) (store : FileStore) : Report :=
  match options.jobs store with
  | .error error => .failure error
  | .ok jobs =>
    conclude options.mode
      (jobs.map fun job => if options.mode = .check then job.checked store else job.printed)

theorem runJobs_of_mode_ne {mode : OutputMode} (reads : mode ≠ .write) (jobs : List Job)
    (store : FileStore) :
    runJobs mode jobs store =
      (jobs.map fun job => if mode = .check then job.checked store else job.printed, store) := by
  apply runJobs_eq_map
  intro job
  cases mode with
  | write => exact absurd rfl reads
  | check => exact run_check job store
  | print => exact run_print job store

/-! ## Errors of jobs -/

theorem model?_of_writeFile {model text : String} {path : FilePath} {store : FileStore}
    {error : RunError}
    (failed : ((writeFile model path text : StateM FileStore TargetReport).run store).1.error =
      some error) : error.model? = some model := by
  rw [run_writeFile] at failed
  cases wrote : store.write path text with
  | error problem =>
      rw [wrote] at failed
      rw [← Option.some.inj failed]
      rfl
  | ok next =>
      rw [wrote] at failed
      cases failed

theorem model?_of_writeModule {model text : String} {path : FilePath} {store : FileStore}
    {error : RunError}
    (failed : ((writeModule model path text : StateM FileStore TargetReport).run store).1.error =
      some error) : error.model? = some model := by
  rw [run_writeModule] at failed
  cases around : directoryOf? path with
  | none =>
      rw [around] at failed
      exact model?_of_writeFile failed
  | some directory =>
      rw [around] at failed
      simp only at failed
      generalize store.createDirectories directory = made at failed
      obtain ⟨middle, outcome⟩ := made
      cases outcome with
      | error problem =>
          rw [← Option.some.inj failed]
          rfl
      | ok _ => exact model?_of_writeFile failed

/-- Whatever a job fails at, the error names its model. -/
theorem model?_of_run {mode : OutputMode} {job : Job} {store : FileStore} {error : RunError}
    (failed : ((job.run mode).run store).1.error = some error) :
    error.model? = some job.model := by
  unfold Job.run at failed
  cases generated : job.module with
  | error cause =>
      rw [generated] at failed
      rw [← Option.some.inj failed]
      rfl
  | ok text =>
      rw [generated] at failed
      cases mode with
      | write => exact model?_of_writeModule failed
      | check =>
          rw [run_checkModule] at failed
          split at failed <;> cases failed
      | print => cases failed

/-- The errors in the reports are those of the jobs. -/
def OfJobs (jobs : List Job) (reports : List TargetReport) : Prop :=
  ∀ report ∈ reports, ∀ error, report.error = some error →
    ∃ job ∈ jobs, error.model? = some job.model

theorem ofJobs_runJobs (mode : OutputMode) (jobs : List Job) (store : FileStore) :
    OfJobs jobs (runJobs mode jobs store).1 := by
  refine runJobs_induction (fun done reports _ => OfJobs done reports) ?_ ?_
  · intro done job rest reports state split before report reported error failed
    rcases List.mem_append.mp reported with earlier | last
    · obtain ⟨other, inside, model⟩ := before report earlier error failed
      exact ⟨other, List.mem_append_left _ inside, model⟩
    · rw [List.mem_singleton.mp last] at failed
      exact ⟨job, List.mem_append_right _ List.mem_cons_self, model?_of_run failed⟩
  · intro report reported
    cases reported

/-- What a run ends with before its targets is of none of them. -/
theorem model?_of_jobs {options : GenerateOptions} {store : FileStore} {error : RunError}
    (ended : options.jobs store = .error error) : error.model? = none := by
  unfold GenerateOptions.jobs at ended
  split at ended
  · cases ended
    rfl
  · split at ended
    · cases ended
      rfl
    · split at ended
      · cases ended
        rfl
      · cases ended

/-- A run ends before its targets exactly if it reports an error that is of none. -/
theorem jobs_eq_error_iff {options : GenerateOptions} {store : FileStore} {error : RunError} :
    options.jobs store = .error error ↔ error.model? = none ∧
      error ∈ ((generate options : StateM FileStore Report).run store).1.errors := by
  rw [run_generate]
  constructor
  · intro ended
    rw [ended]
    exact ⟨model?_of_jobs ended, List.mem_singleton_self error⟩
  · intro reported
    obtain ⟨ofNone, member⟩ := reported
    cases loaded : options.jobs store with
    | error cause =>
        rw [loaded] at member
        rw [List.mem_singleton.mp member]
    | ok jobs =>
        rw [loaded] at member
        obtain ⟨report, reported, failed⟩ := List.mem_filterMap.mp member
        obtain ⟨job, _, model⟩ := ofJobs_runJobs _ _ _ report reported error failed
        rw [ofNone] at model
        cases model

/-- What an inspection reports. -/
def FilePath.inspected (path : FilePath) (store : FileStore) : Report :=
  match store.load Manifest.layout path with
  | .error cause => .failure (.manifest path cause)
  | .ok manifest =>
    match manifest.registry.loaded path.directory store with
    | .error cause => .failure (.registry cause)
    | .ok registry => Inspection.summarize registry path.directory manifest

theorem run_inspect (path : FilePath) (store : FileStore) :
    (inspect path : StateM FileStore Report).run store = (path.inspected store, store) := by
  unfold inspect FilePath.inspected
  rw [run_bind, run_loadDocument]
  cases store.load Manifest.layout path with
  | error cause => rfl
  | ok manifest =>
      simp only
      rw [run_bind, run_load]
      cases manifest.registry.loaded path.directory store <;> rfl

/-- Checks and prints, inspections, and runs with an error that is of no target leave everything as
it was. What they report is what they saw. -/
theorem store_unchanged (options : GenerateOptions) (path : FilePath) (store : FileStore) :
    (options.mode ≠ .write →
      (generate options : StateM FileStore Report).run store = (options.seen store, store)) ∧
    (∀ error ∈ ((generate options : StateM FileStore Report).run store).1.errors,
      error.model? = none →
        (generate options : StateM FileStore Report).run store = (.failure error, store)) ∧
    (inspect path : StateM FileStore Report).run store = (path.inspected store, store) := by
  refine ⟨?_, ?_, run_inspect path store⟩
  · intro reads
    rw [run_generate, GenerateOptions.seen]
    cases options.jobs store with
    | error cause => rfl
    | ok jobs => simp only [runJobs_of_mode_ne reads]
  · intro error member ofNone
    rw [run_generate, jobs_eq_error_iff.mpr ⟨ofNone, member⟩]

/-- Two targets for one model, each with a file of its own. -/
def separateOutputs : FileStore :=
  storeWith ("\x7b\"model\":\"u\"\x7d," ++
    "\x7b\"model\":\"u\",\"output\":\"b.ts\",\"fields\":[\"a\"]\x7d")

/-- No target is for this model. -/
def unmatchedOptions : GenerateOptions := { storedOptions with model := some "w" }

theorem store_unchanged_separateOutputs :
    OutputMode.check ≠ .write ∧
      ((runStored .check separateOutputs).1.output =
        "stale: ./uZodSchema.ts\nstale: ./b.ts\n0 up to date, 2 stale, 0 failed\n" ∧
        (runStored .check separateOutputs).2 = separateOutputs) ∧
      (∃ error ∈ ((generate unmatchedOptions : StateM FileStore Report).run
          separateOutputs).1.errors, error.model? = none ∧
        (generate unmatchedOptions : StateM FileStore Report).run separateOutputs =
          (.failure error, separateOutputs)) ∧
      ((inspect ⟨"m.json"⟩ : StateM FileStore Report).run separateOutputs).2 =
        separateOutputs := by
  have reads : OutputMode.check ≠ .write := by decide
  obtain ⟨checked, _, inspected⟩ :=
    store_unchanged { storedOptions with mode := .check } ⟨"m.json"⟩ separateOutputs
  obtain ⟨_, aborted, _⟩ := store_unchanged unmatchedOptions ⟨"m.json"⟩ separateOutputs
  have stale : (runStored .check separateOutputs).1.output =
      "stale: ./uZodSchema.ts\nstale: ./b.ts\n0 up to date, 2 stale, 0 failed\n" := by
    decide +kernel
  have ofNone : ((generate unmatchedOptions : StateM FileStore Report).run
      separateOutputs).1.errors.map RunError.model? = [none] := by
    decide +kernel
  obtain ⟨error, member, model⟩ := List.mem_map.mp (ofNone ▸ List.mem_singleton_self none)
  refine ⟨reads, ⟨stale, ?_⟩, ⟨error, member, model, aborted error member model⟩, ?_⟩
  · rw [runStored, checked reads]
  · rw [inspected]

end ScopedSchema
