import ScopedSchema.FileAccess
import ScopedSchema.GenerationError

/-!
Reports of runs: what a run prints, what it logs as errors, and its exit code.
-/

namespace ScopedSchema

inductive RunError where
  | manifest (path : FilePath) (cause : LoadError)
  | registry (cause : LoadError)
  | noTarget (manifest : FilePath)
  | generation (model : String) (cause : GenerationError)
  | directory (model : String) (path : FilePath) (problem : FileProblem)
  | file (model : String) (path : FilePath) (problem : FileProblem)

namespace RunError

/-- The model of the target that failed, if one did. -/
def model? : RunError → Option String
  | generation model _ => some model
  | directory model _ _ => some model
  | file model _ _ => some model
  | _ => none

def cause (wording : FileProblem → String) : RunError → String
  | manifest path cause =>
    "failed to load manifest: " ++ path.text ++ ": " ++ cause.message wording
  | registry cause => "failed to load model registry: " ++ cause.message wording
  | noTarget path => "no target in " ++ path.text ++ " matches the given filters"
  | generation model cause =>
    "failed to generate schema for '" ++ model ++ "': " ++ cause.message
  | directory _ path problem =>
    "failed to create output directory: " ++ path.text ++ ": " ++ wording problem
  | file _ path problem => "failed to write " ++ path.text ++ ": " ++ wording problem

def message (wording : FileProblem → String) (error : RunError) : String :=
  match error.model? with
  | some model => error.cause wording ++ " model=" ++ model
  | none => error.cause wording

end RunError

structure Report where
  output : String := ""
  errors : List RunError := []
  code : Nat := 0

/-- A run that ends before any target. -/
def Report.failure (error : RunError) : Report := { errors := [error], code := 1 }

end ScopedSchema
