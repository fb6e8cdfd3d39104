import ScopedSchema.Generation
import ScopedSchema.Proofs.FileStore

/-!
# Runs as lists of jobs

What a run does once its documents are loaded: one job after another, each with a model, a path, and
the module or the reason why there is none. What one job keeps, the whole run keeps.
-/

namespace ScopedSchema

/-- A selected target: the path of its file, and what generation gives for it alone. -/
structure Job where
  model : String
  path : FilePath
  module : Except GenerationError String
  deriving DecidableEq

/-- The document as it is stored. -/
def FileStore.load {α : Type} (store : FileStore) (layout : Layout α) (path : FilePath) :
    Except LoadError α :=
  match store.read path with
  | .error problem => .error (.unreadable path problem)
  | .ok text => (layout.parse path.format path.text text).mapError .invalid

/-- The file that the registry is read from. -/
def RegistrySource.file? (base : FilePath) : RegistrySource → Option FilePath
  | .file path => some (base.join path)
  | .inline _ => none

def RegistrySource.loaded (source : RegistrySource) (base : FilePath) (store : FileStore) :
    Except LoadError Registry :=
  match source with
  | .file path => store.load Registry.layout (base.join path)
  | .inline registry => .ok registry

namespace GenerateOptions

def job (options : GenerateOptions) (manifest : Manifest) (registry : Registry) (target : Target) :
    Job where
  model := target.model
  path := target.outputPath options.manifest.directory
    (options.outputDirectory.getD (manifest.outputDirectoryIn options.manifest.directory))
  module := generateModule (target.context registry) target.model

/-- The jobs of a run, or why it ends before any. -/
def jobs (options : GenerateOptions) (store : FileStore) : Except RunError (List Job) :=
  match store.load Manifest.layout options.manifest with
  | .error cause => .error (.manifest options.manifest cause)
  | .ok manifest =>
    match manifest.registry.loaded options.manifest.directory store with
    | .error cause => .error (.registry cause)
    | .ok registry =>
      match manifest.select options.model options.paths with
      | [] => .error (.noTarget options.manifest)
      | targets => .ok (targets.map (options.job manifest registry))

/-- Outcomes can be computed and compared where what went wrong does not matter. -/
theorem jobs_of_toOption {options : GenerateOptions} {store : FileStore} {jobs : List Job}
    (computed : (options.jobs store).toOption = some jobs) : options.jobs store = .ok jobs := by
  generalize options.jobs store = outcome at computed
  cases outcome with
  | error problem => cases computed
  | ok found => rw [Option.some.inj computed]

/-- The files that a run reads its jobs from. -/
def documents (options : GenerateOptions) (store : FileStore) : List FilePath :=
  match store.load Manifest.layout options.manifest with
  | .error _ => [options.manifest]
  | .ok manifest =>
    options.manifest :: (manifest.registry.file? options.manifest.directory).toList

end GenerateOptions

def Job.run (mode : OutputMode) (job : Job) : StateM FileStore TargetReport :=
  match job.module with
  | .error cause => pure (Generation.failure (.generation job.model cause))
  | .ok text =>
    match mode with
    | .write => Generation.writeModule job.model job.path text
    | .check => Generation.checkModule job.path text
    | .print => pure { outcome := .written, output := text }

/-- The jobs one after another, on stored files. -/
def runJobs (mode : OutputMode) (jobs : List Job) (store : FileStore) :
    List TargetReport × FileStore :=
  (jobs.mapM (Job.run mode)).run store

namespace Generation

/-! ## Runs -/

theorem run_bind {α β σ : Type} (first : StateM σ α) (next : α → StateM σ β) (state : σ) :
    (first >>= next).run state = (next (first.run state).1).run (first.run state).2 :=
  rfl

theorem run_mapM_cons {α β σ : Type} (run : α → StateM σ β) (input : α) (rest : List α)
    (state : σ) :
    ((input :: rest).mapM run).run state =
      (((run input).run state).1 :: ((rest.mapM run).run ((run input).run state).2).1,
        ((rest.mapM run).run ((run input).run state).2).2) := by
  rw [List.mapM_cons]
  rfl

/-- What holds before the first job and is kept by each of them holds behind the last. -/
theorem runJobs_induction {mode : OutputMode} {jobs : List Job} {store : FileStore}
    (holds : List Job → List TargetReport → FileStore → Prop)
    (step : ∀ done job rest reports state, jobs = done ++ job :: rest → holds done reports state →
      holds (done ++ [job]) (reports ++ [((job.run mode).run state).1])
        ((job.run mode).run state).2)
    (start : holds [] [] store) :
    holds jobs (runJobs mode jobs store).1 (runJobs mode jobs store).2 := by
  have suffix : ∀ rest done reports state, jobs = done ++ rest → holds done reports state →
      holds jobs (reports ++ (runJobs mode rest state).1) (runJobs mode rest state).2 := by
    intro rest
    induction rest with
    | nil =>
        intro done reports state split before
        have none : runJobs mode [] state = ([], state) := rfl
        rw [split, List.append_nil, none, List.append_nil]
        exact before
    | cons job rest induction =>
        intro done reports state split before
        unfold runJobs at induction ⊢
        rw [run_mapM_cons, List.append_cons reports]
        exact induction (done ++ [job]) _ _ (by rw [split, List.append_assoc]; rfl)
          (step done job rest reports state split before)
  exact suffix jobs [] [] store rfl start

/-- Jobs that leave everything as it is can be looked at one by one. -/
theorem runJobs_eq_map {mode : OutputMode} {report : Job → TargetReport} {store : FileStore}
    (each : ∀ job : Job, (job.run mode).run store = (report job, store)) (jobs : List Job) :
    runJobs mode jobs store = (jobs.map report, store) := by
  induction jobs with
  | nil => rfl
  | cons job rest induction =>
      unfold runJobs at induction ⊢
      rw [run_mapM_cons, each, induction]
      rfl

theorem run_loadDocument {α : Type} (layout : Layout α) (path : FilePath) (store : FileStore) :
    (loadDocument layout path : StateM FileStore (Except LoadError α)).run store =
      (store.load layout path, store) := by
  have unfolded : (loadDocument layout path : StateM FileStore (Except LoadError α)).run store =
      (match store.read path with
        | .error problem => (pure (.error (.unreadable path problem)) :
            StateM FileStore (Except LoadError α))
        | .ok text => pure ((layout.parse path.format path.text text).mapError .invalid)).run
          store := rfl
  rw [unfolded, FileStore.load]
  cases store.read path <;> rfl

theorem run_load (source : RegistrySource) (base : FilePath) (store : FileStore) :
    (source.load base : StateM FileStore (Except LoadError Registry)).run store =
      (source.loaded base store, store) := by
  cases source with
  | file path => exact run_loadDocument _ _ _
  | inline registry => rfl

end Generation

open Generation

/-- A run does its jobs one after another. Without jobs it leaves everything as it is. -/
theorem run_generate (options : GenerateOptions) (store : FileStore) :
    (generate options : StateM FileStore Report).run store =
      match options.jobs store with
      | .error error => (.failure error, store)
      | .ok jobs =>
        (conclude options.mode (runJobs options.mode jobs store).1,
          (runJobs options.mode jobs store).2) := by
  unfold generate GenerateOptions.jobs
  rw [run_bind, run_loadDocument]
  cases store.load Manifest.layout options.manifest with
  | error cause => rfl
  | ok manifest =>
      simp only
      rw [run_bind, run_load]
      cases manifest.registry.loaded options.manifest.directory store with
      | error cause => rfl
      | ok registry =>
          simp only
          cases manifest.select options.model options.paths with
          | nil => rfl
          | cons target rest =>
              simp only
              rw [run_bind, runJobs, List.mapM_map]
              rfl

namespace Generation

theorem code_conclude_iff (mode : OutputMode) (reports : List TargetReport) :
    (conclude mode reports).code = 0 ↔
      ∀ report ∈ reports, report.outcome ≠ .failed ∧ report.outcome ≠ .stale := by
  have counted : ∀ outcome : Outcome,
      count outcome reports = 0 ↔ ∀ report ∈ reports, report.outcome ≠ outcome := by
    intro outcome
    rw [count, List.countP_eq_zero]
    simp only [decide_eq_true_eq]
  unfold conclude
  simp only
  by_cases bad : 0 < count .failed reports ∨ 0 < count .stale reports
  · rw [if_pos bad]
    simp only [Nat.one_ne_zero, false_iff]
    intro good
    have failed := (counted .failed).mpr fun report member => (good report member).1
    have stale := (counted .stale).mpr fun report member => (good report member).2
    omega
  · rw [if_neg bad]
    simp only [true_iff]
    intro report member
    have failed : count .failed reports = 0 := by omega
    have stale : count .stale reports = 0 := by omega
    exact ⟨(counted .failed).mp failed report member, (counted .stale).mp stale report member⟩

/-! ## Writing -/

def written (path : FilePath) : TargetReport where
  outcome := .written
  output := "wrote " ++ path.text ++ "\n"

/-- A file that cannot be written leaves everything as it was. -/
theorem run_write (path : FilePath) (text : String) (store : FileStore) :
    (FileAccess.write path text : StateM FileStore (Except FileProblem Unit)).run store =
      match store.write path text with
      | .ok next => (.ok (), next)
      | .error problem => (.error problem, store) :=
  rfl

theorem run_writeFile (model : String) (path : FilePath) (text : String) (store : FileStore) :
    (writeFile model path text : StateM FileStore TargetReport).run store =
      match store.write path text with
      | .error problem => (failure (.file model path problem), store)
      | .ok next => (written path, next) := by
  rw [writeFile, run_bind, run_write]
  cases store.write path text <;> rfl

theorem run_writeModule (model : String) (path : FilePath) (text : String) (store : FileStore) :
    (writeModule model path text : StateM FileStore TargetReport).run store =
      match directoryOf? path with
      | none => (writeFile model path text : StateM FileStore TargetReport).run store
      | some directory =>
        match store.createDirectories directory with
        | (middle, .error problem) => (failure (.directory model directory problem), middle)
        | (middle, .ok ()) => (writeFile model path text : StateM FileStore TargetReport).run
            middle := by
  unfold writeModule
  cases directoryOf? path with
  | none => rfl
  | some directory =>
      have effect : (FileAccess.createDirectories directory :
          StateM FileStore (Except FileProblem Unit)).run store =
            (store.createDirectories directory).swap := rfl
      simp only
      rw [run_bind, effect]
      obtain ⟨middle, outcome⟩ := store.createDirectories directory
      cases outcome <;> rfl

theorem directoryOf?_eq_some_iff {path directory : FilePath} :
    directoryOf? path = some directory ↔
      path.parents = directory :: directory.parents ∧ directory.text ≠ "" := by
  unfold directoryOf? FilePath.parent?
  rw [Option.filter_eq_some_iff]
  cases parents : path.parents with
  | nil => simp
  | cons outer around =>
      have others := FilePath.parents_eq_cons parents
      simp only [List.head?_cons, Option.some.injEq, List.cons.injEq]
      constructor
      · intro found
        obtain ⟨same, filled⟩ := found
        subst same
        exact ⟨⟨rfl, others.symm⟩, by simpa using filled⟩
      · intro found
        obtain ⟨⟨same, _⟩, filled⟩ := found
        exact ⟨same, by simpa [same] using filled⟩

/-- First directories are made, then the file is written. Either may fail. -/
theorem run_writeModule_cases (model : String) (path : FilePath) (text : String)
    (store : FileStore) :
    ∃ middle, store.Grown (fun location =>
        ∃ outer ∈ path.parents, location = outer.place store.working) middle ∧
      ((∃ error, (writeModule model path text : StateM FileStore TargetReport).run store =
          (failure error, middle)) ∨
        ∃ next, middle.write path text = .ok next ∧
          (writeModule model path text : StateM FileStore TargetReport).run store =
            (written path, next)) := by
  have wrote : ∀ middle : FileStore,
      (∃ error, (writeFile model path text : StateM FileStore TargetReport).run middle =
          (failure error, middle)) ∨
        ∃ next, middle.write path text = .ok next ∧
          (writeFile model path text : StateM FileStore TargetReport).run middle =
            (written path, next) := by
    intro middle
    rw [run_writeFile]
    cases middle.write path text with
    | error problem => exact Or.inl ⟨_, rfl⟩
    | ok next => exact Or.inr ⟨next, rfl, rfl⟩
  rw [run_writeModule]
  cases around : directoryOf? path with
  | none => exact ⟨store, .refl _ _, wrote store⟩
  | some directory =>
      have grown : store.Grown (fun location =>
          ∃ outer ∈ path.parents, location = outer.place store.working)
            (store.createDirectories directory).1 := by
        rw [(directoryOf?_eq_some_iff.mp around).1]
        exact FileStore.createFrom_grown _
      simp only
      generalize store.createDirectories directory = made at grown
      obtain ⟨middle, outcome⟩ := made
      cases outcome with
      | error problem => exact ⟨middle, grown, Or.inl ⟨_, rfl⟩⟩
      | ok _ => exact ⟨middle, grown, wrote middle⟩

/-- Where a file can be written, it is. -/
theorem run_writeModule_of_writable {store : FileStore} {path : FilePath}
    (writable : store.Writable path) (model text : String) :
    ∃ middle next, store.Grown (fun location => location ∈ path.way store.working) middle ∧
      middle.write path text = .ok next ∧
      (writeModule model path text : StateM FileStore TargetReport).run store =
        (written path, next) := by
  have nest := writable.nest
  generalize parents : path.parents = around at nest
  cases nest with
  | empty _ => exact absurd rfl writable.sound.filled
  | ground _ _ dots =>
      have place : path.place store.working = path.start store.working :=
        FileStore.foldl_stepFrom_dots dots _
      exact absurd (by rw [place, FileStore.entry?_start]) writable.vacant
  | @inside _ outer around inside nest =>
      obtain ⟨middle, made, opened⟩ := FileStore.createFrom_of_nest nest
        (writable.sound.of_inside inside) fun stop member =>
          writable.passable stop (inside.mem_way_iff.mpr member)
      have grown := opened.grown.mono fun stop member => inside.mem_way_iff.mpr member
      have working := grown.around.working
      have leads : middle.Leads path := by
        refine ⟨writable.sound, fun stop member => opened.way stop ?_⟩
        rw [working] at member
        exact inside.mem_way_iff.mp member
      have writable' := writable.of_grown grown writable.apart
      have wrote : middle.write path text =
          .ok (middle.set (path.place middle.working) (.file text)) :=
        FileStore.write_eq_ok_iff.mpr ⟨leads, writable'.vacant, writable.file,
          Or.inr ⟨writable'.regular, rfl⟩⟩
      refine ⟨middle, _, grown, wrote, ?_⟩
      have others := FilePath.parents_eq_cons parents
      rw [run_writeModule]
      by_cases empty : outer.text = ""
      · have none : directoryOf? path = none := by
          rw [Option.eq_none_iff_forall_not_mem]
          intro directory found
          obtain ⟨same, filled⟩ := directoryOf?_eq_some_iff.mp found
          rw [parents] at same
          exact filled ((List.cons.inj same).1 ▸ empty)
        have unchanged : store.createFrom (outer :: around) = (store, .ok ()) := by
          rw [FileStore.createFrom, empty]
          rfl
        rw [unchanged] at made
        rw [none, (Prod.mk.inj made).1]
        simp only
        rw [run_writeFile, wrote]
      · have directories : store.createDirectories outer = (middle, .ok ()) := by
          rw [FileStore.createDirectories, others]
          exact made
        rw [directoryOf?_eq_some_iff.mpr ⟨by rw [parents, others], empty⟩]
        simp only [directories]
        rw [run_writeFile, wrote]

/-- A regular file can be written exactly if it is written when nothing else is. -/
theorem written_iff_writable {store : FileStore} {path : FilePath} {model text : String} :
    (((writeModule model path text : StateM FileStore TargetReport).run store).1.outcome =
        .written ∧ store.Regular (path.place store.working)) ↔ store.Writable path := by
  constructor
  · rintro ⟨wrote, regular⟩
    obtain ⟨middle, grown, outcome⟩ := run_writeModule_cases model path text store
    rcases outcome with ⟨error, failed⟩ | ⟨next, stored, _⟩
    · rw [failed] at wrote
      cases wrote
    · obtain ⟨leads, vacant, file, _⟩ := FileStore.write_eq_ok_iff.mp stored
      have way := leads.way
      rw [grown.around.working] at way vacant
      refine ⟨leads.sound, fun stop member => ?_, fun present => vacant (grown.directory present),
        regular, fun inside => vacant (way _ inside), file⟩
      have made := way stop member
      rcases grown.entries stop with same | ⟨_, none, _⟩
      · exact Or.inr (same ▸ made)
      · exact Or.inl none
  · intro writable
    obtain ⟨_, _, _, _, ran⟩ := run_writeModule_of_writable writable model text
    rw [ran]
    exact ⟨rfl, writable.regular⟩

/-- A job that writes either fails, and makes directories at most, or writes its module. -/
theorem run_write_cases (job : Job) (store : FileStore) :
    (∃ error, ((job.run .write).run store).1 = failure error ∧
      store.Grown (fun _ => True) ((job.run .write).run store).2) ∨
    ∃ text middle next, job.module = .ok text ∧ store.Grown (fun _ => True) middle ∧
      middle.write job.path text = .ok next ∧
      (job.run .write).run store = (written job.path, next) := by
  unfold Job.run
  cases job.module with
  | error cause => exact Or.inl ⟨_, rfl, .refl _ _⟩
  | ok text =>
      obtain ⟨middle, grown, outcome⟩ := run_writeModule_cases job.model job.path text store
      have grown' := grown.mono fun _ _ => trivial
      rcases outcome with ⟨error, failed⟩ | ⟨next, wrote, succeeded⟩
      · refine Or.inl ⟨error, ?_, ?_⟩
        · simp only [failed]
        · simp only [failed]
          exact grown'
      · exact Or.inr ⟨text, middle, next, rfl, grown', wrote, succeeded⟩

end Generation

/-- A manifest with these targets, and a registry with one model and one field. -/
def storeWith (targets : String) : FileStore where
  working := ["w"]
  places := [
    (["w", "m.json"],
      .file ("\x7b\"registry\":\"r.json\",\"targets\":[" ++ targets ++ "]\x7d")),
    (["w", "r.json"],
      .file "\x7b\"models\":\x7b\"u\":\x7b\"a\":\x7b\"fieldType\":\"String\"\x7d\x7d\x7d\x7d")]

def storedOptions : GenerateOptions where
  manifest := ⟨"m.json"⟩

def runStored (mode : OutputMode) (store : FileStore) : Report × FileStore :=
  (generate { storedOptions with mode := mode } : StateM FileStore Report).run store

end ScopedSchema
