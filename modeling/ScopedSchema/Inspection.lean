import ScopedSchema.Manifest
import ScopedSchema.Report

/-!
Inspection: a summary of a manifest. Nothing is generated.
-/

namespace ScopedSchema

namespace Inspection

def spaces (count : Nat) : String := String.ofList (List.replicate count ' ')

def alignLeft (width : Nat) (text : String) : String := text ++ spaces (width - text.length)

def alignRight (width : Nat) (number : Nat) : String :=
  let text := toString number
  spaces (width - text.length) ++ text

def targetLine (registry : Registry) (base directory : FilePath) (target : Target) : String :=
  "  " ++ alignLeft 20 target.model ++ " " ++ alignRight 4 target.allow.size ++ " paths  " ++
    alignRight 3 target.synonyms.aliases.size ++ " synonyms  -> " ++
    (target.outputPath base directory).text ++
    (if registry.hasModel target.model then "" else "  (model not in registry)") ++ "\n"

/-- A model that is not registered makes the inspection fail. -/
def summarize (registry : Registry) (base : FilePath) (manifest : Manifest) : Report where
  output :=
    "registry: " ++ toString registry.models.size ++ " models, " ++
      toString registry.enums.size ++ " enums\ntargets:  " ++
      toString manifest.targets.length ++ "\n\n" ++
      String.join (manifest.targets.map
        (targetLine registry base (manifest.outputDirectoryIn base)))
  code := if manifest.targets.all fun target => registry.hasModel target.model then 0 else 1

end Inspection

def inspect {m : Type → Type} [Monad m] [FileAccess m] (path : FilePath) : m Report := do
  match ← loadDocument Manifest.layout path with
  | .error cause => return .failure (.manifest path cause)
  | .ok manifest =>
    match ← manifest.registry.load path.directory with
    | .error cause => return .failure (.registry cause)
    | .ok registry => return Inspection.summarize registry path.directory manifest

end ScopedSchema
