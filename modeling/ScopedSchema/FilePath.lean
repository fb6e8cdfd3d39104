import ScopedSchema.Document.Format
import ScopedSchema.Text.Separated

/-!
Paths of files. A path is text and stays as written: nothing is looked up, and steps to an outer
directory are not resolved. Empty parts and single dots count for nothing, except a single dot that
begins the path.
-/

namespace ScopedSchema

structure FilePath where
  text : String
  deriving DecidableEq

namespace FilePath

instance : Inhabited FilePath := ⟨⟨""⟩⟩

/-- What begins the path, a slash or a single dot, and the rest of the text. -/
def splitStart : List Char → List Char × List Char
  | '/' :: rest => (['/'], rest)
  | ['.'] => (['.'], [])
  | '.' :: '/' :: rest => (['.'], '/' :: rest)
  | text => ([], text)

def counts (part : List Char) : Bool := !part.isEmpty && part != ['.']

/-- The parts behind the start, last first. -/
def reversedParts (path : FilePath) : List (List Char) :=
  (Separated.split '/' (splitStart path.text.toList).2).reverse

/-- What remains of the parts, last first, after each of those that count has been taken away with
all behind it. -/
def outerParts : List (List Char) → List (List (List Char))
  | [] => []
  | part :: outer =>
    if counts part then (outer.dropWhile fun part => !counts part) :: outerParts outer
    else outerParts outer

/-- The directories around the path, innermost first. -/
def parents (path : FilePath) : List FilePath :=
  let start := (splitStart path.text.toList).1
  let around := (outerParts path.reversedParts).map fun parts =>
    FilePath.mk (String.ofList (start ++ Separated.join '/' parts.reverse))
  if start = ['.'] then around ++ [⟨""⟩] else around

def parent? (path : FilePath) : Option FilePath := path.parents.head?

def fileName? (path : FilePath) : Option (List Char) :=
  ((path.reversedParts.dropWhile fun part => !counts part).head?).filter fun part =>
    part != ['.', '.']

/-- What follows the last dot of the file name, unless the dot begins the name. -/
def extension? (path : FilePath) : Option String :=
  path.fileName?.bind fun name =>
    let extension := (name.reverse.takeWhile fun character => character != '.').reverse
    if extension.length + 1 < name.length then some (String.ofList extension) else none

def isAbsolute (path : FilePath) : Bool := path.text.toList.head? == some '/'

/-- An absolute path replaces the base. -/
def join (base path : FilePath) : FilePath :=
  if path.isAbsolute then path
  else if base.text.isEmpty || base.text.toList.getLast? == some '/' then
    ⟨base.text ++ path.text⟩
  else ⟨base.text ++ "/" ++ path.text⟩

/-- The format that the extension of a document tells. -/
def format (path : FilePath) : DocumentFormat :=
  if path.extension? = some "yaml" ∨ path.extension? = some "yml" then .yaml else .json

/-- The directory that the paths in a document are relative to. -/
def directory (path : FilePath) : FilePath :=
  match path.parent? with
  | some parent => if parent.text.isEmpty then ⟨"."⟩ else parent
  | none => ⟨"."⟩

/-- The parts of the path as a file system follows them. -/
def names (path : FilePath) : List String :=
  ((Separated.split '/' path.text.toList).filter fun part => !part.isEmpty).map String.ofList

def endsInSlash (path : FilePath) : Bool := path.text.toList.getLast? == some '/'

end FilePath

end ScopedSchema
