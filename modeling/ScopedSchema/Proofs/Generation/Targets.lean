import Mathlib.Data.List.Forall2
import Mathlib.Data.List.Nodup
import ScopedSchema.Proofs.Generation

/-!
# Targets that do not stand in each other's way

Targets are generated one by one, and each may fail. If no output stands in the way of another, each
target that succeeds leaves its module in its own file, and nothing else changes but for directories
on the way to such files.
-/

namespace ScopedSchema

open Generation

/-- The module of the job can be generated. -/
def Job.Succeeds (job : Job) : Prop := ∃ text, job.module = .ok text

/-- The outputs are different and no output is on the way to another, each can be written on its
own, and each generation comes to an end. -/
structure Separate (before : FileStore) (jobs : List Job) : Prop where
  different : (jobs.map fun job => job.path.place before.working).Nodup
  apart : ∀ first ∈ jobs, ∀ second ∈ jobs,
    first.path.place before.working ∉ second.path.way before.working
  writable : ∀ job ∈ jobs, before.Writable job.path
  ends : ∀ job ∈ jobs, job.module ≠ .error .endlessNesting

/-- The place is not the output of a job that succeeds. -/
def Spared (jobs : List Job) (working location : Location) : Prop :=
  ∀ job ∈ jobs, job.Succeeds → job.path.place working ≠ location

/-- The place is on the way to the output of a job that succeeds. -/
def OnTheWay (jobs : List Job) (working location : Location) : Prop :=
  ∃ job ∈ jobs, job.Succeeds ∧ location ∈ job.path.way working

/-- The report says whether the job has succeeded. -/
def Job.Reported (job : Job) (report : TargetReport) : Prop :=
  (job.Succeeds ∧ report.outcome = .written) ∨ (¬ job.Succeeds ∧ report.outcome = .failed)

/-- What is known after some of the jobs. -/
structure Progress (before : FileStore) (done : List Job) (reports : List TargetReport)
    (state : FileStore) : Prop where
  around : before.Around state
  files : ∀ job ∈ done, ∀ text, job.module = .ok text → state.read job.path = .ok text
  others : ∀ location, Spared done before.working location →
    state.entry? location = before.entry? location ∨ (OnTheWay done before.working location ∧
      before.entry? location = none ∧ state.entry? location = some .directory)
  reported : List.Forall₂ Job.Reported done reports

section

variable {before state : FileStore} {done : List Job} {reports : List TargetReport} {job : Job}

theorem Spared.of_append {working location : Location}
    (spared : Spared (done ++ [job]) working location) :
    Spared done working location ∧ (job.Succeeds → job.path.place working ≠ location) :=
  ⟨fun other member => spared other (List.mem_append_left _ member),
    spared job (List.mem_append_right _ List.mem_cons_self)⟩

theorem OnTheWay.append {working location : Location} (way : OnTheWay done working location) :
    OnTheWay (done ++ [job]) working location := by
  obtain ⟨other, member, rest⟩ := way
  exact ⟨other, List.mem_append_left _ member, rest⟩

theorem progress_start (before : FileStore) : Progress before [] [] before where
  around := .refl before
  files := fun _ member => nomatch member
  others := fun _ _ => Or.inl rfl
  reported := .nil

theorem progress_of_error (progress : Progress before done reports state)
    {cause : GenerationError} (failed : job.module = .error cause) :
    Progress before (done ++ [job]) (reports ++ [((job.run .write).run state).1])
      ((job.run .write).run state).2 := by
  have ran : (job.run .write).run state =
      (failure (.generation job.model cause), state) := by
    unfold Job.run
    rw [failed]
    rfl
  have fails : ¬ job.Succeeds := by
    intro succeeds
    obtain ⟨text, generated⟩ := succeeds
    rw [failed] at generated
    cases generated
  rw [ran]
  refine ⟨progress.around, ?_, ?_, ?_⟩
  · intro other member text generated
    rcases List.mem_append.mp member with earlier | last
    · exact progress.files other earlier text generated
    · rw [List.mem_singleton.mp last] at generated
      exact absurd ⟨text, generated⟩ fails
  · intro location spared
    exact (progress.others location spared.of_append.1).imp id fun made => ⟨made.1.append, made.2⟩
  · exact List.rel_append progress.reported (.cons (Or.inr ⟨fails, rfl⟩) .nil)

/-- The jobs before have left the way to the output free. -/
theorem writable_of_progress (progress : Progress before done reports state)
    (writable : before.Writable job.path)
    (different : ∀ other ∈ done,
      other.path.place before.working ≠ job.path.place before.working)
    (behind : ∀ other ∈ done, other.path.place before.working ∉ job.path.way before.working)
    (ahead : ∀ other ∈ done, job.path.place before.working ∉ other.path.way before.working) :
    state.Writable job.path := by
  refine writable.of_entries progress.around ?_ ?_
  · intro stop member
    have spared : Spared done before.working stop := fun other inside _ same =>
      behind other inside (same ▸ member)
    exact (progress.others stop spared).imp id fun made => made.2.2
  · have spared : Spared done before.working (job.path.place before.working) :=
      fun other inside _ => different other inside
    rcases progress.others _ spared with same | ⟨⟨other, inside, _, way⟩, _, _⟩
    · exact same
    · exact absurd way (ahead other inside)

theorem progress_of_ok (progress : Progress before done reports state) {text : String}
    (generated : job.module = .ok text) (writable : state.Writable job.path)
    (different : ∀ other ∈ done,
      other.path.place before.working ≠ job.path.place before.working) :
    Progress before (done ++ [job]) (reports ++ [((job.run .write).run state).1])
      ((job.run .write).run state).2 := by
  obtain ⟨middle, next, grown, wrote, ran⟩ :=
    run_writeModule_of_writable writable job.model text
  have ran' : (job.run .write).run state = (written job.path, next) := by
    unfold Job.run
    rw [generated]
    exact ran
  have working : middle.working = before.working :=
    grown.around.working.trans progress.around.working
  have regular : middle.Regular (job.path.place middle.working) := by
    rw [grown.around.working, grown.around.regular_iff]
    exact writable.regular
  rw [ran']
  refine ⟨(progress.around.trans grown.around).trans (FileStore.around_of_write wrote), ?_, ?_, ?_⟩
  · intro other member current generated'
    rcases List.mem_append.mp member with earlier | last
    · have elsewhere := different other earlier
      rw [← working] at elsewhere
      exact FileStore.read_of_write_of_place_ne wrote elsewhere
        (grown.read (progress.files other earlier current generated'))
    · rw [List.mem_singleton.mp last] at generated' ⊢
      rw [generated] at generated'
      rw [← Except.ok.inj generated']
      exact FileStore.read_of_write wrote regular
  · intro location spared
    obtain ⟨earlier, own⟩ := spared.of_append
    have elsewhere : location ≠ job.path.place middle.working := by
      rw [working]
      exact (own ⟨text, generated⟩).symm
    have known := progress.others location earlier
    rw [FileStore.entry?_of_write_of_ne wrote elsewhere]
    rcases grown.entries location with same | ⟨way, none, made⟩
    · rw [same]
      exact known.imp id fun made => ⟨made.1.append, made.2⟩
    · have last : job ∈ done ++ [job] := List.mem_append_right _ List.mem_cons_self
      rw [progress.around.working] at way
      refine Or.inr ⟨⟨job, last, ⟨text, generated⟩, way⟩, ?_, made⟩
      rcases known with same | ⟨_, _, present⟩
      · rw [← same, none]
      · rw [none] at present
        cases present
  · exact List.rel_append progress.reported (.cons (Or.inl ⟨⟨text, generated⟩, rfl⟩) .nil)

/-- One more job. -/
theorem progress_step {jobs rest : List Job} (separate : Separate before jobs)
    (split : jobs = done ++ job :: rest) (progress : Progress before done reports state) :
    Progress before (done ++ [job]) (reports ++ [((job.run .write).run state).1])
      ((job.run .write).run state).2 := by
  have here : job ∈ jobs := by
    rw [split]
    exact List.mem_append_right _ List.mem_cons_self
  have earlier : ∀ other ∈ done, other ∈ jobs := by
    intro other member
    rw [split]
    exact List.mem_append_left _ member
  have different : ∀ other ∈ done,
      other.path.place before.working ≠ job.path.place before.working := by
    have places := separate.different
    rw [split, List.map_append, List.map_cons, List.nodup_append] at places
    exact fun other member => places.2.2 _ (List.mem_map_of_mem member) _ List.mem_cons_self
  cases generated : job.module with
  | error cause => exact progress_of_error progress generated
  | ok text =>
      refine progress_of_ok progress generated ?_ different
      exact writable_of_progress progress (separate.writable job here) different
        (fun other member => separate.apart other (earlier other member) job here)
        (fun other member => separate.apart job here other (earlier other member))

end

theorem progress_runJobs {before : FileStore} {jobs : List Job} (separate : Separate before jobs) :
    Progress before jobs (runJobs .write jobs before).1 (runJobs .write jobs before).2 :=
  runJobs_induction (Progress before)
    (fun _ _ _ _ _ split progress => progress_step separate split progress) (progress_start before)

theorem code_conclude_of_reported {jobs : List Job} {reports : List TargetReport}
    (reported : List.Forall₂ Job.Reported jobs reports) :
    (conclude .write reports).code = 0 ↔ ∀ job ∈ jobs, job.Succeeds := by
  rw [code_conclude_iff]
  induction reported with
  | nil => simp
  | cons here _ induction =>
      rw [List.forall_mem_cons, List.forall_mem_cons, induction]
      refine and_congr_left fun _ => ?_
      rcases here with ⟨succeeds, outcome⟩ | ⟨fails, outcome⟩
      · simp [outcome, succeeds]
      · simp [outcome, fails]

/-- A run over separate targets does for each of them what it does for that one alone. -/
theorem generate_separate {options : GenerateOptions} {before : FileStore} {jobs : List Job}
    (loaded : options.jobs before = .ok jobs) (separate : Separate before jobs) :
    ∃ report after,
      (generate { options with mode := .write } : StateM FileStore Report).run before =
        (report, after) ∧
      before.Around after ∧
      (∀ job ∈ jobs, ∀ text, job.module = .ok text → after.read job.path = .ok text) ∧
      (∀ job ∈ jobs, ¬ job.Succeeds →
        after.entry? (job.path.place before.working) =
          before.entry? (job.path.place before.working)) ∧
      (∀ location, Spared jobs before.working location →
        after.entry? location = before.entry? location ∨ (OnTheWay jobs before.working location ∧
          before.entry? location = none ∧ after.entry? location = some .directory)) ∧
      (report.code = 0 ↔ ∀ job ∈ jobs, job.Succeeds) := by
  have loaded' : ({ options with mode := .write } : GenerateOptions).jobs before = .ok jobs :=
    loaded
  have progress := progress_runJobs separate
  rw [run_generate, loaded']
  refine ⟨_, _, rfl, progress.around, progress.files, ?_, progress.others,
    code_conclude_of_reported progress.reported⟩
  intro job member fails
  have spared : Spared jobs before.working (job.path.place before.working) := by
    intro other inside succeeds same
    rw [List.inj_on_of_nodup_map separate.different inside member same] at succeeds
    exact fails succeeds
  rcases progress.others _ spared with same | ⟨⟨other, inside, _, way⟩, _, _⟩
  · exact same
  · exact absurd way (separate.apart job member other inside)

/-- Two targets for a model, the output of one named from the root, and one between them for a model
that is not registered. -/
def failingBetween : FileStore :=
  storeWith ("\x7b\"model\":\"u\"\x7d,\x7b\"model\":\"w\",\"output\":\"w.ts\"\x7d," ++
    "\x7b\"model\":\"u\",\"output\":\"/w/x/../d/b.ts\",\"fields\":[\"a\"]\x7d")

def jobsBetween : List Job :=
  [⟨"u", ⟨"./uZodSchema.ts"⟩, .ok (moduleText "u" ⟨"z.object(\x7b\x7d)"⟩)⟩,
    ⟨"w", ⟨"./w.ts"⟩, .error (.unknownModel "w")⟩,
    ⟨"u", ⟨"/w/x/../d/b.ts"⟩, .ok (moduleText "u" ⟨"z.object(\x7b a: z.string() \x7d)"⟩)⟩]

theorem separate_failingBetween : Separate failingBetween jobsBetween where
  different := by decide
  apart := by decide
  writable := by
    have alone : ∀ job ∈ jobsBetween, ((writeModule job.model job.path "" :
        StateM FileStore TargetReport).run failingBetween).1.outcome = .written := by
      decide +kernel
    intro job member
    exact written_iff_writable.mp
      ⟨alone job member, FileStore.regular_of_specials_eq_nil rfl _⟩
  ends := by decide

/-- The target between the others fails, and its file is not made. The others go on. -/
theorem generate_separate_failingBetween :
    storedOptions.jobs failingBetween = .ok jobsBetween ∧ Separate failingBetween jobsBetween ∧
      ∃ report after, runStored .write failingBetween = (report, after) ∧ report.code ≠ 0 ∧
        after.read ⟨"./uZodSchema.ts"⟩ = .ok (moduleText "u" ⟨"z.object(\x7b\x7d)"⟩) ∧
        after.read ⟨"/w/x/../d/b.ts"⟩ =
          .ok (moduleText "u" ⟨"z.object(\x7b a: z.string() \x7d)"⟩) ∧
        after.entry? ["w", "w.ts"] = none := by
  have loaded : storedOptions.jobs failingBetween = .ok jobsBetween := by
    apply GenerateOptions.jobs_of_toOption
    decide +kernel
  obtain ⟨report, after, ran, _, files, failed, _, code⟩ :=
    generate_separate loaded separate_failingBetween
  have unregistered : (⟨"w", ⟨"./w.ts"⟩, .error (.unknownModel "w")⟩ : Job) ∈ jobsBetween :=
    List.mem_cons_of_mem _ List.mem_cons_self
  have fails : ¬ Job.Succeeds ⟨"w", ⟨"./w.ts"⟩, .error (.unknownModel "w")⟩ := by
    intro succeeds
    obtain ⟨text, generated⟩ := succeeds
    cases generated
  refine ⟨loaded, separate_failingBetween, report, after, ran,
    fun succeeded => fails (code.mp succeeded _ unregistered),
    files _ List.mem_cons_self _ rfl,
    files _ (List.mem_cons_of_mem _ (List.mem_cons_of_mem _ List.mem_cons_self)) _ rfl, ?_⟩
  exact failed _ unregistered fails

/-- The places of the outputs are different files of one directory. -/
def throughFile : List String :=
  ["\x7b\"model\":\"u\",\"output\":\"a\"\x7d",
    "\x7b\"model\":\"u\",\"output\":\"x/../a/../b\"\x7d"]

/-- Each target can be generated on its own. Together, the file of the first stands where the second
needs a directory. -/
theorem failed_throughFile :
    (∀ target ∈ throughFile, (runStored .write (storeWith target)).1.code = 0) ∧
      FilePath.place ⟨"./a"⟩ ["w"] = ["w", "a"] ∧
      FilePath.place ⟨"./x/../a/../b"⟩ ["w"] = ["w", "b"] ∧
      (runStored .write (storeWith (",".intercalate throughFile))).1.code = 1 ∧
      (runStored .write (storeWith (",".intercalate throughFile))).1.output =
        "wrote ./a\n1 written, 1 failed\n" := by
  decide +kernel

end ScopedSchema
