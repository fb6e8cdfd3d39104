import ScopedSchema.CommandLine

/-!
The program: takes its arguments from the command line and its files from the system.
-/

namespace ScopedSchema

def attempt {α : Type} (action : IO α) : IO (Except FileProblem α) := do
  match ← action.toBaseIO with
  | .ok value => return .ok value
  | .error error => return .error (.other (toString error))

instance : FileAccess IO where
  read path := attempt (IO.FS.readFile path.text)
  createDirectories path := attempt (IO.FS.createDirAll path.text)
  write path text := attempt (IO.FS.writeFile path.text text)

end ScopedSchema

def main (arguments : List String) : IO UInt32 := do
  let report ← (ScopedSchema.CommandLine.parse arguments).run
  IO.print report.output
  for error in report.errors do
    IO.eprintln ("ERROR " ++ error.message ScopedSchema.FileProblem.reason)
  if report.code = 2 then IO.eprint ScopedSchema.CommandLine.usage
  return report.code.toUInt32
