import ScopedSchema.AllowList.Document
import ScopedSchema.Context
import ScopedSchema.FileAccess
import ScopedSchema.Registry.Document
import ScopedSchema.Synonyms.Document

/-!
Manifests: a registry, and the targets to generate modules for. Paths in a manifest are relative to
the directory of the manifest.
-/

namespace ScopedSchema

inductive RegistrySource where
  | file (path : FilePath)
  | inline (registry : Registry)

structure Target where
  model : String
  output : Option FilePath := none
  synonyms : Synonyms := Synonyms.empty
  allow : AllowList := AllowList.empty

structure Manifest where
  registry : RegistrySource
  outputDirectory : Option FilePath := none
  targets : List Target := []

namespace RegistrySource

/-- Text is the path of a registry document; anything else is the registry itself. -/
def ofValue? (value : Value) : Option RegistrySource :=
  if value.isReadable then
    match value.text? with
    | some path => some (.file ⟨path⟩)
    | none => (Registry.ofValue? value).map .inline
  else none

def load {m : Type → Type} [Monad m] [FileAccess m] (source : RegistrySource)
    (base : FilePath) : m (Except LoadError Registry) :=
  match source with
  | .file path => loadDocument Registry.layout (base.join path)
  | .inline registry => pure (.ok registry)

end RegistrySource

def optionalPath? (value : Value) : Option (Option FilePath) :=
  value.optionalText?.map fun text => text.map FilePath.mk

namespace Target

def ofValue? (value : Value) : Option Target := do
  let members ← value.members? ["model", "output", "synonyms", "fields"]
  return {
    model := ← (members.lookup "model").bind Value.text?
    output := ← Value.memberOr? members "output" none optionalPath?
    synonyms := ← Value.memberOr? members "synonyms" Synonyms.empty Synonyms.ofValue?
    allow := ← Value.memberOr? members "fields" AllowList.empty AllowList.ofValue? }

def shape : Shape :=
  .record [("model", .text), ("output", .optionalText), ("synonyms", Synonyms.shape),
    ("fields", AllowList.shape)]

def defaultFileName (model : String) : String := model ++ "ZodSchema.ts"

/-- The file that the module is written to. -/
def outputPath (target : Target) (base directory : FilePath) : FilePath :=
  match target.output with
  | some path => base.join path
  | none => directory.join ⟨defaultFileName target.model⟩

def context (registry : Registry) (target : Target) : Context :=
  ⟨registry, target.synonyms, target.allow⟩

end Target

namespace Manifest

def ofValue? (value : Value) : Option Manifest := do
  let members ← value.members? ["registry", "output_dir", "targets"]
  return {
    registry := ← (members.lookup "registry").bind RegistrySource.ofValue?
    outputDirectory := ← Value.memberOr? members "output_dir" none optionalPath?
    targets := ← Value.memberOr? members "targets" [] (Value.listOf? Target.ofValue?) }

def shape : Shape :=
  .record [("registry", .anything), ("output_dir", .optionalText), ("targets", .list Target.shape)]

def layout : Layout Manifest := ⟨shape, ofValue?⟩

def outputDirectoryIn (manifest : Manifest) (base : FilePath) : FilePath :=
  manifest.outputDirectory.elim base base.join

/-- The targets that are for the model and have one of the paths as an entry. No model and no paths
select all. -/
def selectedBy (model : Option String) (paths : List String) (target : Target) : Bool :=
  model.all (fun name => target.model == name) &&
    (paths.isEmpty || paths.any target.allow.containsPath)

def select (manifest : Manifest) (model : Option String) (paths : List String) : List Target :=
  manifest.targets.filter (selectedBy model paths)

end Manifest

end ScopedSchema
