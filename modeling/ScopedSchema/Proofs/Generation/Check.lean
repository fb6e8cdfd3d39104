import ScopedSchema.Proofs.Generation

/-!
# Checking what was written

A check compares each module with the file at its path and changes nothing. Behind a run that wrote
every module, each regular file holds the module of the last target that leads to it. So the check
succeeds unless two targets lead to one file with different modules, a special file answers with
something else, or a target took the place of a document that the run is read from.
-/

namespace ScopedSchema

open Generation

/-! ## The documents -/

namespace FileStore

variable {α : Type} {store next : FileStore} {layout : Layout α} {path : FilePath}

theorem load_congr (same : next.read path = store.read path) :
    next.load layout path = store.load layout path := by
  rw [load, load, same]

theorem exists_read_of_load {value : α} (loaded : store.load layout path = .ok value) :
    ∃ text, store.read path = .ok text := by
  unfold load at loaded
  cases found : store.read path with
  | error problem =>
      rw [found] at loaded
      cases loaded
  | ok text => exact ⟨text, rfl⟩

end FileStore

namespace GenerateOptions

variable {options : GenerateOptions} {store next : FileStore}

/-- The jobs of a run depend on its documents alone. -/
theorem jobs_congr (same : ∀ document ∈ options.documents store,
    next.read document = store.read document) : options.jobs next = options.jobs store := by
  have manifest : next.load Manifest.layout options.manifest =
      store.load Manifest.layout options.manifest := by
    apply FileStore.load_congr
    apply same
    unfold documents
    split <;> exact List.mem_cons_self
  unfold documents at same
  unfold jobs
  rw [manifest]
  cases loaded : store.load Manifest.layout options.manifest with
  | error cause => rfl
  | ok manifest =>
      rw [loaded] at same
      simp only at same ⊢
      have registry : manifest.registry.loaded options.manifest.directory next =
          manifest.registry.loaded options.manifest.directory store := by
        cases source : manifest.registry with
        | inline registry => rfl
        | file path =>
            apply FileStore.load_congr
            apply same
            rw [source]
            exact List.mem_cons_of_mem _ List.mem_cons_self
      rw [registry]

theorem exists_read_of_jobs {jobs : List Job} (loaded : options.jobs store = .ok jobs) :
    ∀ document ∈ options.documents store, ∃ text, store.read document = .ok text := by
  unfold documents
  unfold GenerateOptions.jobs at loaded
  cases manifest : store.load Manifest.layout options.manifest with
  | error cause =>
      rw [manifest] at loaded
      cases loaded
  | ok content =>
      rw [manifest] at loaded
      simp only at loaded ⊢
      rw [List.forall_mem_cons]
      refine ⟨FileStore.exists_read_of_load manifest, fun document member => ?_⟩
      cases source : content.registry with
      | inline registry =>
          rw [source] at member
          cases member
      | file path =>
          rw [source] at member loaded
          rw [List.mem_singleton.mp member]
          cases registry : store.load Registry.layout (options.manifest.directory.join path) with
          | error cause =>
              simp only [RegistrySource.loaded, registry] at loaded
              cases loaded
          | ok _ => exact FileStore.exists_read_of_load registry

end GenerateOptions

/-! ## Checks -/

theorem run_checkModule (path : FilePath) (text : String) (store : FileStore) :
    (checkModule path text : StateM FileStore TargetReport).run store =
      (if store.read path = .ok text then { outcome := .upToDate }
        else { outcome := .stale, output := "stale: " ++ path.text ++ "\n" }, store) := by
  have effect : (FileAccess.read path :
      StateM FileStore (Except FileProblem String)).run store = (store.read path, store) := rfl
  rw [checkModule, run_bind, effect]
  cases store.read path with
  | error problem => rfl
  | ok current =>
      simp only [Except.ok.injEq]
      rfl

/-- What a check says about one job. -/
def Job.checked (store : FileStore) (job : Job) : TargetReport :=
  match job.module with
  | .error cause => failure (.generation job.model cause)
  | .ok text =>
    if store.read job.path = .ok text then { outcome := .upToDate }
    else { outcome := .stale, output := "stale: " ++ job.path.text ++ "\n" }

theorem run_check (job : Job) (store : FileStore) :
    (job.run .check).run store = (job.checked store, store) := by
  unfold Job.run Job.checked
  cases job.module with
  | error cause => rfl
  | ok text => exact run_checkModule job.path text store

theorem runJobs_check (jobs : List Job) (store : FileStore) :
    runJobs .check jobs store = (jobs.map (Job.checked store), store) :=
  runJobs_eq_map (fun job => run_check job store) jobs

/-- The file of the job has its module. -/
def Job.Fresh (store : FileStore) (job : Job) : Prop :=
  ∃ text, job.module = .ok text ∧ store.read job.path = .ok text

theorem checked_of_fresh {store : FileStore} {job : Job} (fresh : job.Fresh store) :
    job.checked store = { outcome := .upToDate } := by
  obtain ⟨text, generated, found⟩ := fresh
  rw [Job.checked, generated]
  simp only [found, if_true]

theorem fresh_of_checked {store : FileStore} {job : Job}
    (good : (job.checked store).outcome ≠ .failed ∧ (job.checked store).outcome ≠ .stale) :
    job.Fresh store := by
  unfold Job.checked at good
  cases generated : job.module with
  | error cause =>
      rw [generated] at good
      exact absurd rfl good.1
  | ok text =>
      rw [generated] at good
      simp only at good
      by_cases found : store.read job.path = .ok text
      · exact ⟨text, generated, found⟩
      · rw [if_neg found] at good
        exact absurd rfl good.2

theorem code_check_iff {jobs : List Job} {store : FileStore} :
    (conclude .check (runJobs .check jobs store).1).code = 0 ↔ ∀ job ∈ jobs, job.Fresh store := by
  rw [runJobs_check, code_conclude_iff]
  constructor
  · intro good job member
    exact fresh_of_checked (good _ (List.mem_map_of_mem member))
  · intro fresh report member
    obtain ⟨job, inside, same⟩ := List.mem_map.mp member
    rw [← same, checked_of_fresh (fresh job inside)]
    exact ⟨nofun, nofun⟩

theorem conclude_check_of_fresh {jobs : List Job} {store : FileStore}
    (fresh : ∀ job ∈ jobs, job.Fresh store) :
    conclude .check (runJobs .check jobs store).1 =
      { output := toString jobs.length ++ " up to date, 0 stale, 0 failed\n" } := by
  have reports : jobs.map (Job.checked store) =
      List.replicate jobs.length { outcome := .upToDate } := by
    rw [List.eq_replicate_iff, List.length_map]
    refine ⟨rfl, fun report member => ?_⟩
    obtain ⟨job, inside, same⟩ := List.mem_map.mp member
    rw [← same, checked_of_fresh (fresh job inside)]
  have counted : ∀ outcome : Outcome, count outcome (List.replicate jobs.length
      ({ outcome := .upToDate } : TargetReport)) =
        if .upToDate = outcome then jobs.length else 0 := by
    intro outcome
    rw [count, List.countP_replicate]
    simp only [decide_eq_true_eq]
  have silent : ∀ count : Nat, String.join (List.replicate count "") = "" := by
    intro count
    induction count with
    | zero => rfl
    | succ count induction =>
        rw [List.replicate_succ, String.join_cons, induction]
        rfl
  have errors : (List.replicate jobs.length
      ({ outcome := .upToDate } : TargetReport)).filterMap TargetReport.error = [] := by
    rw [List.filterMap_replicate]
  have rest : " up to date, " ++ (toString 0 ++ (" stale, " ++ (toString 0 ++ " failed\n"))) =
      " up to date, 0 stale, 0 failed\n" := by decide
  rw [runJobs_check, reports, conclude, summary, errors, counted, counted, counted,
    List.map_replicate, silent]
  simp only [reduceCtorEq, if_true, if_false, Nat.lt_irrefl, or_self, String.empty_append,
    String.append_assoc, rest]

/-! ## Runs that write -/

theorem around_of_run_write (job : Job) (store : FileStore) :
    store.Around ((job.run .write).run store).2 := by
  rcases run_write_cases job store with ⟨_, _, grown⟩ | ⟨_, middle, next, _, grown, wrote, ran⟩
  · exact grown.around
  · rw [ran]
    exact grown.around.trans (FileStore.around_of_write wrote)

theorem around_runJobs_write (jobs : List Job) (store : FileStore) :
    store.Around (runJobs .write jobs store).2 :=
  runJobs_induction (fun _ _ state => store.Around state)
    (fun _ job _ _ state _ before => before.trans (around_of_run_write job state)) (.refl store)

theorem read_of_run_write {job : Job} {store : FileStore} {path : FilePath} {text : String}
    (apart : job.path.place store.working ≠ path.place store.working)
    (found : store.read path = .ok text) :
    ((job.run .write).run store).2.read path = .ok text := by
  rcases run_write_cases job store with ⟨_, _, grown⟩ | ⟨_, middle, next, _, grown, wrote, ran⟩
  · exact grown.read found
  · rw [ran]
    rw [← grown.around.working] at apart
    exact FileStore.read_of_write_of_place_ne wrote apart.symm (grown.read found)

/-- Documents that no job takes the place of stay as they are. -/
theorem read_of_runJobs_write {jobs : List Job} {store : FileStore} {path : FilePath}
    {text : String}
    (apart : ∀ job ∈ jobs, job.path.place store.working ≠ path.place store.working)
    (found : store.read path = .ok text) : (runJobs .write jobs store).2.read path = .ok text := by
  have kept : store.Around (runJobs .write jobs store).2 ∧
      (runJobs .write jobs store).2.read path = .ok text := by
    refine runJobs_induction (fun _ _ state => store.Around state ∧ state.read path = .ok text) ?_
      ⟨.refl store, found⟩
    rintro done job rest reports state split ⟨around, before⟩
    refine ⟨around.trans (around_of_run_write job state), read_of_run_write ?_ before⟩
    rw [around.working]
    apply apart
    rw [split]
    exact List.mem_append_right _ List.mem_cons_self
  exact kept.2

/-- Each job's path leads to a file, which, if it is regular, has the module of a job with the same
place. -/
def Settled (jobs : List Job) (store : FileStore) : Prop :=
  ∀ job ∈ jobs, store.Leads job.path ∧ job.path.endsInSlash = false ∧
    (store.Regular (job.path.place store.working) → ∃ other ∈ jobs, ∃ text,
      other.module = .ok text ∧
        other.path.place store.working = job.path.place store.working ∧
        store.Holds (job.path.place store.working) text)

theorem settled_of_run_write {done : List Job} {job : Job} {store : FileStore}
    (settled : Settled done store) (succeeded : ((job.run .write).run store).1.outcome ≠ .failed) :
    Settled (done ++ [job]) ((job.run .write).run store).2 := by
  rcases run_write_cases job store with ⟨error, failed, _⟩ | ⟨text, middle, next, generated, grown,
    wrote, ran⟩
  · rw [failed] at succeeded
    exact absurd rfl succeeded
  · rw [ran]
    have last : job ∈ done ++ [job] := List.mem_append_right _ List.mem_cons_self
    have around := FileStore.around_of_write wrote
    have working : middle.working = store.working := grown.around.working
    obtain ⟨leads, _, file, _⟩ := FileStore.write_eq_ok_iff.mp wrote
    have own := FileStore.holds_of_write wrote
    intro earlier member
    rw [around.working, around.regular_iff]
    rcases List.mem_append.mp member with before | same
    · obtain ⟨leads', file', holds⟩ := settled earlier before
      refine ⟨FileStore.leads_of_write wrote (grown.leads leads'), file', fun regular => ?_⟩
      by_cases same : earlier.path.place middle.working = job.path.place middle.working
      · rw [same] at regular ⊢
        exact ⟨job, last, text, generated, rfl, own regular⟩
      · have kept := FileStore.entry?_of_write_of_ne wrote same
        rw [working, grown.around.regular_iff] at regular
        rw [working] at kept ⊢
        obtain ⟨other, inside, current, generated', place, here⟩ := holds regular
        exact ⟨other, List.mem_append_left _ inside, current, generated', place,
          around.holds kept (grown.holds here)⟩
    · rw [List.mem_singleton.mp same]
      exact ⟨FileStore.leads_of_write wrote leads, file, fun regular =>
        ⟨job, last, text, generated, rfl, own regular⟩⟩

theorem settled_of_runJobs_write {jobs : List Job} {store : FileStore}
    (succeeded : ∀ report ∈ (runJobs .write jobs store).1, report.outcome ≠ .failed) :
    Settled jobs (runJobs .write jobs store).2 := by
  refine runJobs_induction (fun done reports state =>
    (∀ report ∈ reports, report.outcome ≠ .failed) → Settled done state) ?_ ?_ succeeded
  · intro done job rest reports state split settled all
    rw [List.forall_mem_append, List.forall_mem_singleton] at all
    exact settled_of_run_write (settled all.1) all.2
  · intro _ job member
    cases member

/-! ## A check behind a run -/

/-- Jobs with one place have one module. -/
def Agreeing (jobs : List Job) (working : Location) : Prop :=
  ∀ first ∈ jobs, ∀ second ∈ jobs,
    first.path.place working = second.path.place working → first.module = second.module

/-- A special file at the place of the job reads as its module. -/
def Job.Answered (store : FileStore) (job : Job) : Prop :=
  ∀ file, store.special? (job.path.place store.working) = some file →
    ∃ text, job.module = .ok text ∧ file.reading = .ok text

theorem fresh_iff_of_settled {jobs : List Job} {store : FileStore} (settled : Settled jobs store) :
    (∀ job ∈ jobs, job.Fresh store) ↔
      Agreeing jobs store.working ∧ ∀ job ∈ jobs, job.Answered store := by
  constructor
  · intro fresh
    refine ⟨?_, ?_⟩
    · intro first inside second inside' place
      obtain ⟨text, generated, found⟩ := fresh first inside
      obtain ⟨text', generated', found'⟩ := fresh second inside'
      have here := (FileStore.read_eq_ok_iff.mp found).2.1
      have here' := (FileStore.read_eq_ok_iff.mp found').2.1
      rw [← place] at here'
      rw [generated, generated', here.eq here']
    · intro job inside file special
      obtain ⟨text, generated, found⟩ := fresh job inside
      rcases (FileStore.read_eq_ok_iff.mp found).2.1 with ⟨file', special', answer⟩ | ⟨regular, _⟩
      · rw [special] at special'
        exact ⟨text, generated, Option.some.inj special' ▸ answer⟩
      · rw [FileStore.Regular, special] at regular
        cases regular
  · rintro ⟨agree, answered⟩ job member
    obtain ⟨leads, file, regular⟩ := settled job member
    cases special : store.special? (job.path.place store.working) with
    | some special' =>
        obtain ⟨text, generated, answer⟩ := answered job member special' special
        exact ⟨text, generated, FileStore.read_eq_ok_iff.mpr
          ⟨leads, Or.inl ⟨special', special, answer⟩, file⟩⟩
    | none =>
        obtain ⟨other, inside, text, generated, place, holds⟩ := regular special
        refine ⟨text, ?_, FileStore.read_eq_ok_iff.mpr ⟨leads, holds, file⟩⟩
        rw [agree job member other inside place.symm, generated]

/-- A check right behind a run that wrote all modules finds them up to date, exactly if targets with
one place have one module and special files read as the modules written to them. -/
theorem check_after_write {options : GenerateOptions} {before after : FileStore} {jobs : List Job}
    {report : Report} (loaded : options.jobs before = .ok jobs)
    (ran : (generate { options with mode := .write } : StateM FileStore Report).run before =
      (report, after))
    (succeeded : report.code = 0)
    (apart : ∀ document ∈ options.documents before, ∀ job ∈ jobs,
      job.path.place before.working ≠ document.place before.working) :
    ∃ checked, (generate { options with mode := .check } : StateM FileStore Report).run after =
        (checked, after) ∧
      (checked.code = 0 ↔
        Agreeing jobs before.working ∧ ∀ job ∈ jobs, job.Answered before) ∧
      (checked.code = 0 → checked =
        { output := toString jobs.length ++ " up to date, 0 stale, 0 failed\n" }) := by
  rw [run_generate] at ran
  have loaded' : ({ options with mode := .write } : GenerateOptions).jobs before = .ok jobs :=
    loaded
  rw [loaded'] at ran
  obtain ⟨concluded, same⟩ := Prod.mk.inj ran
  simp only at same
  rw [← concluded, code_conclude_iff] at succeeded
  have settled := settled_of_runJobs_write fun report member => (succeeded report member).1
  have around := around_runJobs_write jobs before
  rw [same] at settled around
  have documents : ∀ document ∈ options.documents before,
      after.read document = before.read document := by
    intro document member
    obtain ⟨text, found⟩ := GenerateOptions.exists_read_of_jobs loaded document member
    rw [found, ← same]
    exact read_of_runJobs_write (apart document member) found
  have again : ({ options with mode := .check } : GenerateOptions).jobs after = .ok jobs := by
    rw [← loaded]
    exact GenerateOptions.jobs_congr documents
  refine ⟨conclude .check (runJobs .check jobs after).1, ?_, ?_, ?_⟩
  · rw [run_generate, again]
    simp only
    rw [runJobs_check]
  · rw [code_check_iff, fresh_iff_of_settled settled]
    unfold Job.Answered
    simp only [around.working, around.special?]
  · intro succeeded
    exact conclude_check_of_fresh (code_check_iff.mp succeeded)

/-- The last two outputs are one file, named once through the directory around and once from the
root, and one module. -/
def agreeingOutputs : FileStore :=
  storeWith ("\x7b\"model\":\"u\"\x7d," ++
    "\x7b\"model\":\"u\",\"output\":\"../w/b.ts\",\"fields\":[\"a\"]\x7d," ++
    "\x7b\"model\":\"u\",\"output\":\"/w/b.ts\",\"fields\":[\"a\"]\x7d")

def agreeingJobs : List Job :=
  [⟨"u", ⟨"./uZodSchema.ts"⟩, .ok (moduleText "u" ⟨"z.object(\x7b\x7d)"⟩)⟩,
    ⟨"u", ⟨"./../w/b.ts"⟩, .ok (moduleText "u" ⟨"z.object(\x7b a: z.string() \x7d)"⟩)⟩,
    ⟨"u", ⟨"/w/b.ts"⟩, .ok (moduleText "u" ⟨"z.object(\x7b a: z.string() \x7d)"⟩)⟩]

theorem check_after_write_agreeingOutputs :
    ∃ report after,
      storedOptions.jobs agreeingOutputs = .ok agreeingJobs ∧
      runStored .write agreeingOutputs = (report, after) ∧ report.code = 0 ∧
      (∀ document ∈ storedOptions.documents agreeingOutputs, ∀ job ∈ agreeingJobs,
        job.path.place agreeingOutputs.working ≠ document.place agreeingOutputs.working) ∧
      runStored .check after = ({ output := "3 up to date, 0 stale, 0 failed\n" }, after) := by
  have loaded : storedOptions.jobs agreeingOutputs = .ok agreeingJobs := by
    apply GenerateOptions.jobs_of_toOption
    decide +kernel
  have succeeded : (runStored .write agreeingOutputs).1.code = 0 := by decide +kernel
  have apart : ∀ document ∈ storedOptions.documents agreeingOutputs, ∀ job ∈ agreeingJobs,
      job.path.place agreeingOutputs.working ≠ document.place agreeingOutputs.working := by
    decide +kernel
  have agree : Agreeing agreeingJobs agreeingOutputs.working := by
    unfold Agreeing
    decide +kernel
  have answered : ∀ job ∈ agreeingJobs, job.Answered agreeingOutputs := by
    intro job member file special
    have regular : agreeingOutputs.Regular (job.path.place agreeingOutputs.working) :=
      FileStore.regular_of_specials_eq_nil rfl _
    rw [regular] at special
    cases special
  have wrote : runStored .write agreeingOutputs =
      ((runStored .write agreeingOutputs).1, (runStored .write agreeingOutputs).2) :=
    (Prod.eta _).symm
  obtain ⟨checked, ran, iff, summary⟩ := check_after_write loaded wrote succeeded apart
  refine ⟨_, _, loaded, wrote, succeeded, apart, ?_⟩
  rw [summary (iff.mpr ⟨agree, answered⟩)] at ran
  exact ran

/-- The default outputs of two targets for one model are one file. The second module is written over
the first. -/
def sharedOutput : FileStore :=
  storeWith "\x7b\"model\":\"u\"\x7d,\x7b\"model\":\"u\",\"fields\":[\"a\"]\x7d"

/-- Two names of one file, for different modules. -/
def renamedOutput : FileStore :=
  storeWith ("\x7b\"model\":\"u\",\"output\":\"a.ts\"\x7d," ++
    "\x7b\"model\":\"u\",\"output\":\"/w/a.ts\",\"fields\":[\"a\"]\x7d")

/-- The module is written over the registry. -/
def overwrittenRegistry : FileStore :=
  storeWith "\x7b\"model\":\"u\",\"output\":\"r.json\"\x7d"

/-- The module goes where everything that is written is lost. -/
def lostOutput : FileStore :=
  let store := storeWith "\x7b\"model\":\"u\",\"output\":\"/dev/null\"\x7d"
  { store with
    specials := [(["dev", "null"], ⟨.ok (), .ok ""⟩)]
    places := (["dev"], .directory) :: store.places }

theorem stale_after_write :
    (∀ store ∈ [sharedOutput, renamedOutput, overwrittenRegistry, lostOutput],
      (runStored .write store).1.code = 0 ∧
        (runStored .check (runStored .write store).2).1.code = 1) ∧
      (runStored .check (runStored .write sharedOutput).2).1.output =
        "stale: ./uZodSchema.ts\n1 up to date, 1 stale, 0 failed\n" ∧
      (runStored .check (runStored .write renamedOutput).2).1.output =
        "stale: ./a.ts\n1 up to date, 1 stale, 0 failed\n" ∧
      (runStored .check (runStored .write lostOutput).2).1.output =
        "stale: /dev/null\n0 up to date, 1 stale, 0 failed\n" := by
  decide +kernel

end ScopedSchema
