import ScopedSchema.Proofs.FileAccess
import ScopedSchema.Proofs.Generation
import ScopedSchema.Proofs.Module
import ScopedSchema.Proofs.Zod.ObjectKey

/-!
# Default outputs stay in their directory

A run asks for files on behalf of its targets only, and on behalf of a target only if its module can
be generated. So the model of the target is a registered bare identifier by then, and the name of
the default output can lead neither out of the directory of outputs nor further into it.
-/

namespace ScopedSchema

/-! ## Names of default outputs -/

theorem ObjectKey.isIdentifierPart_of_mem {name : String} (bare : isBareIdentifier name = true)
    {character : Char} (member : character ∈ name.toList) : isIdentifierPart character = true := by
  cases split : name.toList with
  | nil =>
      rw [split] at member
      cases member
  | cons first rest =>
      obtain ⟨part, _, parts⟩ := (isBareIdentifier_iff split).mp bare
      rw [split] at member
      rcases List.mem_cons.mp member with same | later
      · exact same ▸ part
      · exact parts character later

/-- A model that can be generated is a registered bare identifier. -/
theorem named_of_generateModule {context : Context} {model text : String}
    (generated : generateModule context model = .ok text) :
    isBareIdentifier model = true ∧ context.registry.hasModel model = true := by
  unfold generateModule at generated
  split at generated
  · rename_i bare
    obtain ⟨schema, built, _⟩ := Outcome.map_eq_ok_iff.mp generated
    exact ⟨bare, (buildSchema_eq_ok_iff.mp built).1⟩
  · cases generated

theorem isFileName_defaultFileName {model : String} (bare : isBareIdentifier model = true) :
    FilePath.IsFileName (Target.defaultFileName model) ∧
      Target.defaultFileName model ≠ "." ∧ Target.defaultFileName model ≠ ".." := by
  have long : 3 ≤ (Target.defaultFileName model).toList.length := by
    rw [Target.defaultFileName, String.toList_append, List.length_append]
    exact Nat.le_trans (by decide) (Nat.le_add_left _ _)
  have longer : ∀ name : String, name.toList.length < 3 → Target.defaultFileName model ≠ name := by
    intro name short same
    rw [same] at long
    omega
  refine ⟨⟨longer "" (by decide), ?_⟩, longer "." (by decide), longer ".." (by decide)⟩
  rw [Target.defaultFileName, String.toList_append, List.mem_append]
  rintro (inside | behind)
  · exact absurd (ObjectKey.isIdentifierPart_of_mem bare inside) (by decide)
  · revert behind
    decide

/-! ## What a run asks for -/

namespace Generation

section

variable {σ : Type} [FileAccess (StateM σ)]

theorem asks_loadDocument {α : Type} (layout : Layout α) (path : FilePath) (files : σ) :
    Asks (loadDocument layout path : StateM σ (Except LoadError α)) files [] := by
  unfold loadDocument
  refine (Asks.read path).bind ?_
  split <;> exact .pure _

theorem asks_load (source : RegistrySource) (base : FilePath) (files : σ) :
    Asks (source.load base : StateM σ (Except LoadError Registry)) files [] := by
  cases source with
  | file path => exact asks_loadDocument _ _ _
  | inline registry => exact .pure _

/-- The request writes the file, or makes the directory that has to exist before. -/
inductive Serves (path : FilePath) (text : String) : FileRequest → Prop
  | directories {directory : FilePath} : directoryOf? path = some directory →
      Serves path text (.directories directory)
  | write : Serves path text (.write path text)

theorem asks_writeFile (model : String) (path : FilePath) (text : String) (files : σ) :
    Asks (writeFile model path text : StateM σ TargetReport) files [.write path text] := by
  unfold writeFile
  refine (Asks.write path text).bind ?_
  split <;> exact .pure _

theorem exists_asks_writeModule (model : String) (path : FilePath) (text : String) (files : σ) :
    ∃ requests, (∀ request ∈ requests, Serves path text request) ∧
      Asks (writeModule model path text : StateM σ TargetReport) files requests := by
  have served : ∀ request ∈ [FileRequest.write path text], Serves path text request :=
    List.forall_mem_singleton.mpr .write
  unfold writeModule
  cases around : directoryOf? path with
  | none => exact ⟨[.write path text], served, asks_writeFile model path text files⟩
  | some directory =>
      have served' : Serves path text (.directories directory) := .directories around
      -- Whether the file is asked for depends on what became of the directory.
      cases made : ((FileAccess.createDirectories directory :
          StateM σ (Except FileProblem Unit)).run files).1 with
      | error problem =>
          refine ⟨[.directories directory], List.forall_mem_singleton.mpr served',
            (Asks.createDirectories directory).bind ?_⟩
          rw [made]
          exact .pure _
      | ok _ =>
          refine ⟨[.directories directory, .write path text],
            List.forall_mem_cons.mpr ⟨served', served⟩,
            (Asks.createDirectories directory).bind ?_⟩
          rw [made]
          exact asks_writeFile model path text _

theorem asks_checkModule (path : FilePath) (text : String) (files : σ) :
    Asks (checkModule path text : StateM σ TargetReport) files [] := by
  unfold checkModule
  refine (Asks.read path).bind ?_
  split <;> exact .pure _

/-- Nothing is asked for before the module is there. -/
theorem exists_asks_runTarget (registry : Registry) (mode : OutputMode) (path : FilePath)
    (target : Target) (files : σ) :
    ∃ requests, (∀ request ∈ requests, mode = .write ∧ ∃ text,
        generateModule (target.context registry) target.model = .ok text ∧
          Serves path text request) ∧
      Asks (runTarget registry mode path target : StateM σ TargetReport) files requests := by
  unfold runTarget
  cases generated : generateModule (target.context registry) target.model with
  | error cause => exact ⟨[], nofun, .pure _⟩
  | ok text =>
      cases mode with
      | write =>
          obtain ⟨requests, serves, asks⟩ :=
            exists_asks_writeModule target.model path text files
          exact ⟨requests, fun request member => ⟨rfl, text, rfl, serves request member⟩, asks⟩
      | check => exact ⟨[], nofun, asks_checkModule path text files⟩
      | print => exact ⟨[], nofun, .pure _⟩

end

end Generation

open Generation

namespace GenerateOptions

/-- Where the outputs are that the manifest does not name. -/
def defaultDirectory (options : GenerateOptions) (manifest : Manifest) : FilePath :=
  options.outputDirectory.getD (manifest.outputDirectoryIn options.manifest.directory)

def outputPath (options : GenerateOptions) (manifest : Manifest) (target : Target) : FilePath :=
  target.outputPath options.manifest.directory (options.defaultDirectory manifest)

section

variable {σ : Type} [FileAccess (StateM σ)]

abbrev manifestRead (options : GenerateOptions) (files : σ) : Except LoadError Manifest × σ :=
  (loadDocument Manifest.layout options.manifest : StateM σ (Except LoadError Manifest)).run files

/-- The registry is read behind the manifest. -/
abbrev registryRead (options : GenerateOptions) (manifest : Manifest) (files : σ) :
    Except LoadError Registry × σ :=
  (manifest.registry.load options.manifest.directory : StateM σ (Except LoadError Registry)).run
    (options.manifestRead files).2

/-- The manifest and the registry that a run finds when it begins. -/
def Finds (options : GenerateOptions) (files : σ) (manifest : Manifest) (registry : Registry) :
    Prop :=
  (options.manifestRead files).1 = .ok manifest ∧
    (options.registryRead manifest files).1 = .ok registry

end

/-- The file at the end of the path, with this text, or a directory on the way there. -/
inductive Along (path : FilePath) (text : String) (working : Location) :
    Location → FileEntry → Prop
  | file : Along path text working (path.place working) (.file text)
  | directory {location : Location} : location ∈ path.way working →
      Along path text working location .directory

/-- What lies right in the directory under this name, or is a directory on the way there. -/
inductive RightIn (directory : FilePath) (name : String) (working : Location) :
    Location → FileEntry → Prop
  | file (text : String) :
      RightIn directory name working (directory.place working ++ [name]) (.file text)
  | directory {location : Location} :
      location ∈ directory.way working ∨ location = directory.place working →
        RightIn directory name working location .directory

/-- What a run may ask for on behalf of a target. -/
structure Confined (options : GenerateOptions) (manifest : Manifest) (registry : Registry)
    (target : Target) (requests : List FileRequest) : Prop where
  served : ∀ request ∈ requests, options.mode = .write ∧ ∃ text,
    generateModule (target.context registry) target.model = .ok text ∧
      Serves (options.outputPath manifest target) text request
  named : requests ≠ [] →
    isBareIdentifier target.model = true ∧ registry.hasModel target.model = true
  unnamed : '/' ∈ target.model.toList ∨ '.' ∈ target.model.toList → requests = []
  inside : target.output = none → ∀ request ∈ requests, ∀ working location entry,
    request.Leaves working location entry →
      RightIn (options.defaultDirectory manifest) (target.model ++ "ZodSchema.ts") working location
        entry

variable {options : GenerateOptions} {manifest : Manifest} {registry : Registry} {target : Target}

theorem along_of_serves {path : FilePath} {text : String} {request : FileRequest}
    (serves : Serves path text request) {working location : Location} {entry : FileEntry}
    (leaves : request.Leaves working location entry) : Along path text working location entry := by
  cases serves with
  | write =>
      obtain ⟨path, text⟩ := leaves
      exact .file
  | @directories outer around =>
      obtain ⟨member⟩ := leaves
      rw [← (directoryOf?_eq_some_iff.mp around).1] at member
      exact .directory (FilePath.place_mem_way_of_mem_parents member working)

/-- Everything along the path of a default output lies right in the directory of outputs. -/
theorem Along.rightIn {directory : FilePath} {model text : String}
    (bare : isBareIdentifier model = true) {working location : Location} {entry : FileEntry}
    (along : Along (directory.join ⟨Target.defaultFileName model⟩) text working location entry) :
    RightIn directory (model ++ "ZodSchema.ts") working location entry := by
  obtain ⟨named, inner⟩ := isFileName_defaultFileName bare
  cases along with
  | file =>
      rw [FilePath.place_join named directory working inner]
      exact .file text
  | directory onTheWay =>
      rw [FilePath.way_join named, List.mem_append, List.mem_singleton] at onTheWay
      exact .directory onTheWay

theorem confined_of_served {requests : List FileRequest}
    (served : ∀ request ∈ requests, options.mode = .write ∧ ∃ text,
      generateModule (target.context registry) target.model = .ok text ∧
        Serves (options.outputPath manifest target) text request) :
    options.Confined manifest registry target requests := by
  have named : requests ≠ [] →
      isBareIdentifier target.model = true ∧ registry.hasModel target.model = true := by
    intro asked
    obtain ⟨request, member⟩ := List.exists_mem_of_ne_nil requests asked
    obtain ⟨_, text, generated, _⟩ := served request member
    exact named_of_generateModule generated
  refine ⟨served, named, ?_, ?_⟩
  · intro outside
    by_contra asked
    have bare := (named asked).1
    rcases outside with slash | dot
    · exact absurd (ObjectKey.isIdentifierPart_of_mem bare slash) (by decide)
    · exact absurd (ObjectKey.isIdentifierPart_of_mem bare dot) (by decide)
  · intro noOutput request member working location entry leaves
    obtain ⟨_, text, _, serves⟩ := served request member
    have path : options.outputPath manifest target =
        (options.defaultDirectory manifest).join ⟨Target.defaultFileName target.model⟩ := by
      rw [outputPath, Target.outputPath, noOutput]
    rw [path] at serves
    exact (along_of_serves serves leaves).rightIn (named (List.ne_nil_of_mem member)).1

section

variable {σ : Type} [FileAccess (StateM σ)]

theorem exists_asks_targets (options : GenerateOptions) (manifest : Manifest)
    (registry : Registry) (targets : List Target) (files : σ) :
    ∃ requests, List.Forall₂ (options.Confined manifest registry) targets requests ∧
      Asks (targets.mapM fun target => runTarget registry options.mode
        (options.outputPath manifest target) target : StateM σ (List TargetReport)) files
        requests.flatten := by
  refine Asks.exists_mapM ?_ targets files
  intro target files
  obtain ⟨requests, served, asks⟩ := exists_asks_runTarget registry options.mode
    (options.outputPath manifest target) target files
  exact ⟨requests, confined_of_served served, asks⟩

/-- A run asks for what its targets ask for, one after another. -/
theorem exists_asks_generate (options : GenerateOptions) (files : σ) :
    ∃ requests : List (List FileRequest),
      Asks (generate options : StateM σ Report) files requests.flatten ∧
      (requests = [] ∨ ∃ manifest registry, options.Finds files manifest registry ∧
        List.Forall₂ (options.Confined manifest registry)
          (manifest.select options.model options.paths) requests) := by
  have loading := asks_loadDocument Manifest.layout options.manifest files
  unfold generate
  cases found : (options.manifestRead files).1 with
  | error cause =>
      refine ⟨[], loading.bind ?_, Or.inl rfl⟩
      rw [found]
      exact .pure _
  | ok manifest =>
      have knowing := asks_load manifest.registry options.manifest.directory
        (options.manifestRead files).2
      cases known : (options.registryRead manifest files).1 with
      | error cause =>
          refine ⟨[], loading.bind ?_, Or.inl rfl⟩
          rw [found]
          refine knowing.bind ?_
          rw [known]
          exact .pure _
      | ok registry =>
          obtain ⟨requests, all, asks⟩ := exists_asks_targets options manifest registry
            (manifest.select options.model options.paths) (options.registryRead manifest files).2
          refine ⟨requests, loading.bind ?_, Or.inr ⟨manifest, registry, ⟨found, known⟩, all⟩⟩
          rw [found]
          refine knowing.bind ?_
          rw [known]
          generalize manifest.select options.model options.paths = targets at all asks ⊢
          cases targets with
          | nil =>
              cases all
              exact .pure _
          | cons target rest =>
              have last : Asks ((target :: rest).mapM (fun target => runTarget registry options.mode
                  (options.outputPath manifest target) target) >>= fun reports =>
                    pure (conclude options.mode reports) : StateM σ Report) _
                  (requests.flatten ++ []) :=
                asks.bind (.pure _)
              rw [List.append_nil] at last
              exact last

/-- The files behind a run. -/
def filesBehind (options : GenerateOptions) (files : σ) : σ :=
  ((generate options : StateM σ Report).run files).2

end

/-- What a run may leave in the files on behalf of a target. -/
structure MayLeave (options : GenerateOptions) (manifest : Manifest) (registry : Registry)
    (target : Target) (working location : Location) (entry : FileEntry) : Prop where
  writes : options.mode = .write
  named : isBareIdentifier target.model = true ∧ registry.hasModel target.model = true
  plain : '/' ∉ target.model.toList ∧ '.' ∉ target.model.toList
  along : ∃ text, generateModule (target.context registry) target.model = .ok text ∧
    Along (options.outputPath manifest target) text working location entry
  inside : target.output = none →
    RightIn (options.defaultDirectory manifest) (target.model ++ "ZodSchema.ts") working location
      entry

theorem Confined.mayLeave {requests : List FileRequest}
    (confined : options.Confined manifest registry target requests) {request : FileRequest}
    (member : request ∈ requests) {working location : Location} {entry : FileEntry}
    (leaves : request.Leaves working location entry) :
    options.MayLeave manifest registry target working location entry where
  writes := (confined.served request member).1
  named := confined.named (List.ne_nil_of_mem member)
  plain := not_or.mp fun outside =>
    List.ne_nil_of_mem member (confined.unnamed outside)
  along := by
    obtain ⟨_, text, generated, serves⟩ := confined.served request member
    exact ⟨text, generated, along_of_serves serves leaves⟩
  inside := fun noOutput => confined.inside noOutput request member working location entry leaves

theorem entry?_filesBehind_cases (options : GenerateOptions) (before : FileStore)
    (location : Location) :
    FileStore.entry? (options.filesBehind before) location = before.entry? location ∨
      ∃ manifest registry, options.Finds before manifest registry ∧
        ∃ target ∈ manifest.select options.model options.paths, ∃ entry,
          options.MayLeave manifest registry target before.working location entry ∧
            FileStore.entry? (options.filesBehind before) location = some entry := by
  obtain ⟨requests, asks, nothing | ⟨manifest, registry, finds, all⟩⟩ :=
    options.exists_asks_generate before
  · subst nothing
    rcases FileSteps.entry?_cases asks location with same | ⟨_, member, _⟩
    · exact Or.inl same
    · cases member
  · rcases FileSteps.entry?_cases asks location with same | ⟨request, member, entry, leaves, left⟩
    · exact Or.inl same
    · obtain ⟨own, inside, member⟩ := List.mem_flatten.mp member
      obtain ⟨index, rfl⟩ := List.mem_iff_get.mp inside
      have bound := Nat.lt_of_lt_of_eq index.isLt all.length_eq.symm
      exact Or.inr ⟨manifest, registry, finds, _, List.get_mem _ ⟨index, bound⟩, entry,
        (all.get bound index.isLt).mayLeave member leaves, left⟩

end GenerateOptions

/-- Whatever keeps the files, a run changes them by its requests alone, and each of these is made
on behalf of a target that it may be made for. So a store is different only where something was
left on behalf of a target. -/
theorem generate_confined (options : GenerateOptions) :
    (∀ {σ : Type} [FileAccess (StateM σ)] (before : σ), ∃ requests : List (List FileRequest),
      FileSteps requests.flatten before (options.filesBehind before) ∧
      (requests = [] ∨ ∃ manifest registry, options.Finds before manifest registry ∧
        List.Forall₂ (options.Confined manifest registry)
          (manifest.select options.model options.paths) requests)) ∧
    ∀ (before : FileStore) (location : Location),
      FileStore.entry? (options.filesBehind before) location = before.entry? location ∨
        ∃ manifest registry, options.Finds before manifest registry ∧
          ∃ target ∈ manifest.select options.model options.paths, ∃ entry,
            options.MayLeave manifest registry target before.working location entry ∧
              FileStore.entry? (options.filesBehind before) location = some entry :=
  ⟨fun before => options.exists_asks_generate before, options.entry?_filesBehind_cases⟩

/-- Both models are registered, but one of them leads out of the directory of outputs. -/
def outsideModel : FileStore where
  working := ["w"]
  places := [(["w", "m.json"], .file
    ("\x7b\"registry\":\x7b\"models\":\x7b\"../u\":\x7b\x7d,\"u\":\x7b\x7d\x7d\x7d," ++
      "\"output_dir\":\"out\"," ++
      "\"targets\":[\x7b\"model\":\"../u\"\x7d,\x7b\"model\":\"u\"\x7d]\x7d"))]

example : (runStored .write outsideModel).1.code = 1 ∧
    (runStored .write outsideModel).2.places.map Prod.fst =
      [["w", "m.json"], ["w", "out"], ["w", "out", "uZodSchema.ts"]] := by
  decide +kernel

end ScopedSchema
