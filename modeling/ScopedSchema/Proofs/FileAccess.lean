import Mathlib.Data.List.Forall2
import ScopedSchema.Proofs.FileStore

/-!
# What is asked of files

Whatever keeps the files and however it answers, a run takes them from one state to another by
reading and by requests to make directories and to write. The requests are told one after another
here, also those that fail and those that change nothing. In a store, a request leaves something at
its own places only.
-/

namespace ScopedSchema

inductive FileRequest where
  | directories (path : FilePath)
  | write (path : FilePath) (text : String)

section

variable {σ : Type} [FileAccess (StateM σ)]

namespace FileRequest

/-- The files behind a request, whether it could be met or not. -/
def perform (files : σ) : FileRequest → σ
  | directories path =>
    ((FileAccess.createDirectories path : StateM σ (Except FileProblem Unit)).run files).2
  | write path text =>
    ((FileAccess.write path text : StateM σ (Except FileProblem Unit)).run files).2

end FileRequest

/-- The first files become the second ones by these requests in this order, and by reading. -/
inductive FileSteps : List FileRequest → σ → σ → Prop
  | done (files : σ) : FileSteps [] files files
  | read (path : FilePath) {requests : List FileRequest} {files last : σ} :
      FileSteps requests
        ((FileAccess.read path : StateM σ (Except FileProblem String)).run files).2 last →
      FileSteps requests files last
  | request (request : FileRequest) {requests : List FileRequest} {files last : σ} :
      FileSteps requests (request.perform files) last →
      FileSteps (request :: requests) files last

theorem FileSteps.append {first second : List FileRequest} {files middle last : σ}
    (steps : FileSteps first files middle) (further : FileSteps second middle last) :
    FileSteps (first ++ second) files last := by
  induction steps with
  | done _ => exact further
  | read path _ induction => exact .read path (induction further)
  | request request _ induction => exact .request request (induction further)

/-- The run asks for these things, in this order. -/
def Asks {α : Type} (run : StateM σ α) (files : σ) (requests : List FileRequest) : Prop :=
  FileSteps requests files (run.run files).2

namespace Asks

variable {α β : Type} {files : σ}

theorem pure (value : α) : Asks (Pure.pure value : StateM σ α) files [] := .done files

theorem read (path : FilePath) :
    Asks (FileAccess.read path : StateM σ (Except FileProblem String)) files [] :=
  FileSteps.read path (.done _)

theorem createDirectories (path : FilePath) :
    Asks (FileAccess.createDirectories path : StateM σ (Except FileProblem Unit)) files
      [.directories path] :=
  .request (.directories path) (.done _)

theorem write (path : FilePath) (text : String) :
    Asks (FileAccess.write path text : StateM σ (Except FileProblem Unit)) files
      [.write path text] :=
  .request (.write path text) (.done _)

theorem bind {first : StateM σ α} {next : α → StateM σ β} {requests further : List FileRequest}
    (asks : Asks first files requests)
    (asks' : Asks (next (first.run files).1) (first.run files).2 further) :
    Asks (first >>= next) files (requests ++ further) :=
  FileSteps.append asks asks'

/-- Runs for one input after another ask for what each of them asks for. -/
theorem exists_mapM {run : α → StateM σ β} {Fits : α → List FileRequest → Prop}
    (each : ∀ input files, ∃ requests, Fits input requests ∧ Asks (run input) files requests)
    (inputs : List α) (files : σ) :
    ∃ requests, List.Forall₂ Fits inputs requests ∧
      Asks (inputs.mapM run) files requests.flatten := by
  induction inputs generalizing files with
  | nil => exact ⟨[], .nil, pure []⟩
  | cons input rest induction =>
      obtain ⟨own, fits, asks⟩ := each input files
      obtain ⟨others, all, later⟩ := induction ((run input).run files).2
      have last : Asks
          (rest.mapM run >>= fun values => Pure.pure (((run input).run files).1 :: values))
          ((run input).run files).2 (others.flatten ++ []) :=
        later.bind (pure _)
      rw [List.append_nil] at last
      refine ⟨own :: others, .cons fits all, ?_⟩
      rw [List.mapM_cons, List.flatten_cons]
      exact asks.bind last

end Asks

end

/-! ## Requests to a store -/

namespace FileRequest

/-- Where a request may leave something in a store, and what. -/
inductive Leaves (working : Location) : FileRequest → Location → FileEntry → Prop
  | directory {path outer : FilePath} : outer ∈ path :: path.parents →
      Leaves working (.directories path) (outer.place working) .directory
  | file (path : FilePath) (text : String) :
      Leaves working (.write path text) (path.place working) (.file text)

theorem entry?_perform (request : FileRequest) (store : FileStore) :
    store.Around (request.perform store) ∧ ∀ location,
      FileStore.entry? (request.perform store) location = store.entry? location ∨
        ∃ entry, request.Leaves store.working location entry ∧
          FileStore.entry? (request.perform store) location = some entry := by
  cases request with
  | directories path =>
      have grown : store.Grown _ (store.createFrom (path :: path.parents)).1 :=
        FileStore.createFrom_grown (path :: path.parents)
      refine ⟨grown.around, fun location => ?_⟩
      rcases grown.entries location with same | ⟨⟨outer, member, here⟩, _, made⟩
      · exact Or.inl same
      · exact Or.inr ⟨.directory, here ▸ .directory member, made⟩
  | write path text =>
      cases wrote : store.write path text with
      | error problem =>
          have after : perform store (.write path text) = store := by
            simp only [perform, StateT.run, FileAccess.write, wrote]
          rw [after]
          exact ⟨.refl store, fun _ => Or.inl rfl⟩
      | ok next =>
          have after : perform store (.write path text) = next := by
            simp only [perform, StateT.run, FileAccess.write, wrote]
          rw [after]
          refine ⟨FileStore.around_of_write wrote, fun location => ?_⟩
          by_cases here : location = path.place store.working
          · obtain ⟨_, _, _, ⟨_, _, _, same⟩ | ⟨regular, _⟩⟩ := FileStore.write_eq_ok_iff.mp wrote
            · exact Or.inl (by rw [same])
            · refine Or.inr ⟨.file text, here ▸ .file path text, ?_⟩
              rw [FileStore.entry?_of_write wrote regular, if_pos here]
          · exact Or.inl (FileStore.entry?_of_write_of_ne wrote here)

end FileRequest

/-- What is different behind some requests was left by one of them. -/
theorem FileSteps.entry?_cases {requests : List FileRequest} {before after : FileStore}
    (steps : FileSteps requests before after) (location : Location) :
    after.entry? location = before.entry? location ∨
      ∃ request ∈ requests, ∃ entry, request.Leaves before.working location entry ∧
        after.entry? location = some entry := by
  induction steps with
  | done _ => exact Or.inl rfl
  | read _ _ induction => exact induction
  | @request request _ files last _ induction =>
      obtain ⟨around, entries⟩ := request.entry?_perform files
      rw [around.working] at induction
      rcases induction with same | ⟨other, member, rest⟩
      · rw [same]
        exact (entries location).imp id fun left => ⟨request, List.mem_cons_self, left⟩
      · exact Or.inr ⟨other, List.mem_cons_of_mem _ member, rest⟩

end ScopedSchema
