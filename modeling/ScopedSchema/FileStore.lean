import ScopedSchema.FileAccess

/-!
Files in memory. A place is known by the names that lead to it from the root, and there are no
links, so every file has one place, whatever path leads there. Every step of a path leads out of a
directory that exists. A regular file gives back what was written to it last.
-/

namespace ScopedSchema

/-- The names that lead to a place from the root, none of them a step outwards. -/
abbrev Location := List String

inductive FileEntry where
  | directory
  | file (text : String)
  deriving DecidableEq

/-- A file that is no regular one. It answers to writing and to reading in its own way, and always
the same. -/
structure SpecialFile where
  writing : Except FileProblem Unit
  reading : Except FileProblem String

/-- What no access to files changes. -/
structure Surroundings where
  working : Location
  specials : List (Location × SpecialFile) := []

structure FileStore extends Surroundings where
  places : List (Location × FileEntry)

namespace FileStore

/-- A working directory with nothing in it. -/
def empty : FileStore := ⟨⟨["home", "project"], []⟩, []⟩

instance : Inhabited FileStore := ⟨empty⟩

/-- The working directory and those around it, up to the root, always exist. -/
def isGround (store : FileStore) (location : Location) : Bool :=
  location.isPrefixOf store.working

def special? (store : FileStore) (location : Location) : Option SpecialFile :=
  if store.isGround location then none else store.specials.lookup location

/-- What is at a place. No text is kept for a special file. -/
def entry? (store : FileStore) (location : Location) : Option FileEntry :=
  if store.isGround location then some .directory
  else if (store.special? location).isSome then some (.file "")
  else store.places.lookup location

/-- What lies in the working directory, by the names that lead there from it. -/
def entries (store : FileStore) : List (Location × FileEntry) :=
  store.places.filterMap fun (location, entry) =>
    (store.working.isPrefixOf? location).map fun names => (names, entry)

/-- The directory around a place. The root is around itself. -/
def outer (location : Location) : Location := location.dropLast

/-- Follows one name out of a directory. -/
def enter (store : FileStore) (location : Location) (name : String) :
    Except FileProblem Location :=
  match store.entry? location with
  | none => .error .missing
  | some (.file _) => .error .notADirectory
  | some .directory =>
    if name = "." then .ok location
    else if name = ".." then .ok (outer location)
    else if 255 < name.utf8ByteSize then .error .nameTooLong
    else .ok (location ++ [name])

/-- The place that a path leads to: from the root, or else from the working directory. The last name
need not exist. -/
def locate (store : FileStore) (path : FilePath) : Except FileProblem Location :=
  if path.text.isEmpty then .error .missing
  else if path.text.toList.contains '\x00' then .error .invalidName
  else if 4096 ≤ path.text.utf8ByteSize then .error .nameTooLong
  else path.names.foldlM store.enter (if path.isAbsolute then [] else store.working)

def read (store : FileStore) (path : FilePath) : Except FileProblem String :=
  match store.locate path with
  | .error problem => .error problem
  | .ok location =>
    match store.entry? location with
    | none => .error .missing
    | some .directory => .error .isADirectory
    | some (.file text) =>
      if path.endsInSlash then .error .notADirectory
      else
        match store.special? location with
        | some file => file.reading
        | none => .ok text

def setEntry (location : Location) (entry : FileEntry) :
    List (Location × FileEntry) → List (Location × FileEntry)
  | [] => [(location, entry)]
  | (other, current) :: rest =>
    if other = location then (other, entry) :: rest
    else (other, current) :: setEntry location entry rest

def set (store : FileStore) (location : Location) (entry : FileEntry) : FileStore :=
  { store with places := setEntry location entry store.places }

def write (store : FileStore) (path : FilePath) (text : String) : Except FileProblem FileStore :=
  match store.locate path with
  | .error problem => .error problem
  | .ok location =>
    match store.entry? location with
    | some .directory => .error .isADirectory
    | _ =>
      if path.endsInSlash then .error .isADirectory
      else
        match store.special? location with
        | some file => file.writing.map fun _ => store
        | none => .ok (store.set location (.file text))

def isDirectory (store : FileStore) (path : FilePath) : Bool :=
  match store.locate path with
  | .ok location => store.entry? location == some .directory
  | .error _ => false

def makeDirectory (store : FileStore) (path : FilePath) : Except FileProblem FileStore :=
  match store.locate path with
  | .error problem => .error problem
  | .ok location =>
    if (store.entry? location).isSome then .error .alreadyExists
    else .ok (store.set location .directory)

/-- A directory that exists already is as good as a new one. -/
def ensureDirectory (store : FileStore) (path : FilePath) : Except FileProblem FileStore :=
  match store.makeDirectory path with
  | .ok next => .ok next
  | .error problem => if store.isDirectory path then .ok store else .error problem

/-- Makes the first directory; if one around it is missing, makes the others before. What was made
stays when a later one fails. -/
def createFrom (store : FileStore) : List FilePath → FileStore × Except FileProblem Unit
  | [] => (store, .error .missing)
  | path :: around =>
    if path.text.isEmpty then (store, .ok ())
    else
      match store.ensureDirectory path with
      | .ok next => (next, .ok ())
      | .error .missing =>
        match store.createFrom around with
        | (outside, .error problem) => (outside, .error problem)
        | (outside, .ok ()) =>
          match outside.ensureDirectory path with
          | .ok next => (next, .ok ())
          | .error problem => (outside, .error problem)
      | .error problem => (store, .error problem)

def createDirectories (store : FileStore) (path : FilePath) :
    FileStore × Except FileProblem Unit :=
  store.createFrom (path :: path.parents)

def remove (store : FileStore) (path : FilePath) : FileStore :=
  match store.locate path with
  | .ok location => { store with places := store.places.filter fun entry => entry.1 != location }
  | .error _ => store

end FileStore

instance : FileAccess (StateM FileStore) where
  read path := fun store => (store.read path, store)
  createDirectories path := fun store => (store.createDirectories path).swap
  write path text := fun store =>
    match store.write path text with
    | .ok next => (.ok (), next)
    | .error problem => (.error problem, store)

end ScopedSchema
