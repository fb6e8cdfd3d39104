import ScopedSchema.FilePath

/-!
Access to files. A run reads documents, makes directories and writes modules; where the files are is
left open.
-/

namespace ScopedSchema

inductive FileProblem where
  | missing
  | notADirectory
  | isADirectory
  | alreadyExists
  | nameTooLong
  | invalidName
  | other (reason : String)
  deriving DecidableEq

def FileProblem.reason : FileProblem → String
  | missing => "No such file or directory (os error 2)"
  | notADirectory => "Not a directory (os error 20)"
  | isADirectory => "Is a directory (os error 21)"
  | alreadyExists => "File exists (os error 17)"
  | nameTooLong => "File name too long (os error 36)"
  | invalidName => "file name contained an unexpected NUL byte"
  | other reason => reason

class FileAccess (m : Type → Type) where
  read : FilePath → m (Except FileProblem String)
  /-- Makes a directory and all around it that are missing. -/
  createDirectories : FilePath → m (Except FileProblem Unit)
  write : FilePath → String → m (Except FileProblem Unit)

/-- Why a document cannot be loaded. -/
inductive LoadError where
  | unreadable (path : FilePath) (problem : FileProblem)
  | invalid (error : DocumentError)
  deriving DecidableEq

/-- The wording of file problems is the system's own. -/
def LoadError.message (wording : FileProblem → String) : LoadError → String
  | .unreadable path problem =>
    "document load error for '" ++ path.text ++ "': cannot read file: " ++ wording problem
  | .invalid error => error.message

def loadDocument {m : Type → Type} [Monad m] [FileAccess m] {α : Type} (layout : Layout α)
    (path : FilePath) : m (Except LoadError α) := do
  match ← FileAccess.read path with
  | .error problem => return .error (.unreadable path problem)
  | .ok text => return (layout.parse path.format path.text text).mapError .invalid

end ScopedSchema
