import ScopedSchema.Manifest
import ScopedSchema.Module
import ScopedSchema.Report

/-!
Generation: the modules of the targets of a manifest are written, compared with the files there, or
printed. Targets fail one by one; the others go on.
-/

namespace ScopedSchema

inductive OutputMode where
  | write | check | print
  deriving DecidableEq

structure GenerateOptions where
  manifest : FilePath
  model : Option String := none
  paths : List String := []
  outputDirectory : Option FilePath := none
  mode : OutputMode := .write

inductive Outcome where
  | written | upToDate | stale | failed
  deriving DecidableEq

structure TargetReport where
  outcome : Outcome
  output : String := ""
  error : Option RunError := none

namespace Generation

variable {m : Type → Type} [Monad m] [FileAccess m]

def failure (error : RunError) : TargetReport := { outcome := .failed, error := some error }

/-- The directory that has to exist before the file is written. -/
def directoryOf? (path : FilePath) : Option FilePath :=
  path.parent?.filter fun parent => !parent.text.isEmpty

def writeFile (model : String) (path : FilePath) (text : String) : m TargetReport := do
  match ← FileAccess.write path text with
  | .error problem => return failure (.file model path problem)
  | .ok () => return { outcome := .written, output := "wrote " ++ path.text ++ "\n" }

def writeModule (model : String) (path : FilePath) (text : String) : m TargetReport :=
  match directoryOf? path with
  | none => writeFile model path text
  | some directory => do
    match ← FileAccess.createDirectories directory with
    | .error problem => return failure (.directory model directory problem)
    | .ok () => writeFile model path text

def checkModule (path : FilePath) (text : String) : m TargetReport := do
  match ← FileAccess.read path with
  | .ok current =>
    return if current = text then { outcome := .upToDate }
      else { outcome := .stale, output := "stale: " ++ path.text ++ "\n" }
  | .error _ => return { outcome := .stale, output := "stale: " ++ path.text ++ "\n" }

def runTarget (registry : Registry) (mode : OutputMode) (path : FilePath) (target : Target) :
    m TargetReport :=
  match generateModule (target.context registry) target.model with
  | .error cause => pure (failure (.generation target.model cause))
  | .ok text =>
    match mode with
    | .write => writeModule target.model path text
    | .check => checkModule path text
    | .print => pure { outcome := .written, output := text }

def count (outcome : Outcome) (reports : List TargetReport) : Nat :=
  reports.countP fun report => report.outcome = outcome

def summary (mode : OutputMode) (reports : List TargetReport) : String :=
  let failed := toString (count .failed reports) ++ " failed\n"
  match mode with
  | .write => toString (count .written reports) ++ " written, " ++ failed
  | .check =>
    toString (count .upToDate reports) ++ " up to date, " ++
      toString (count .stale reports) ++ " stale, " ++ failed
  | .print => ""

def conclude (mode : OutputMode) (reports : List TargetReport) : Report where
  output := String.join (reports.map TargetReport.output) ++ summary mode reports
  errors := reports.filterMap TargetReport.error
  code := if 0 < count .failed reports ∨ 0 < count .stale reports then 1 else 0

end Generation

def generate {m : Type → Type} [Monad m] [FileAccess m] (options : GenerateOptions) :
    m Report := do
  match ← loadDocument Manifest.layout options.manifest with
  | .error cause => return .failure (.manifest options.manifest cause)
  | .ok manifest =>
    let base := options.manifest.directory
    match ← manifest.registry.load base with
    | .error cause => return .failure (.registry cause)
    | .ok registry =>
      let directory := options.outputDirectory.getD (manifest.outputDirectoryIn base)
      match manifest.select options.model options.paths with
      | [] => return .failure (.noTarget options.manifest)
      | targets =>
        let reports ← targets.mapM fun target =>
          Generation.runTarget registry options.mode (target.outputPath base directory) target
        return Generation.conclude options.mode reports

end ScopedSchema
