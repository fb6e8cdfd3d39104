import ScopedSchema.Path

/-!
Allow lists: the dotted paths that a schema may cover, each bare or with a custom type and a
message. A path is allowed when its keys are the first keys of some entry. There are no wildcards,
and list markers do not count.
-/

namespace ScopedSchema

/-- A plain value that names no type. A number is kept as far as documents keep it: itself if it is
natural and fits 64 bits, or else only that it is one. -/
inductive PlainValue where
  | null
  | bool {flag : Bool}
  | number {natural? : Option Nat}
  deriving DecidableEq

inductive TypeOverride where
  | named (name : String)
  | list (items : List TypeOverride)
  | object (members : List (String × TypeOverride))
  | other (value : PlainValue)

structure FieldOverride where
  type : Option TypeOverride := none
  message : Option String := none

namespace FieldOverride

def isEmpty (change : FieldOverride) : Bool := change.type.isNone && change.message.isNone

end FieldOverride

inductive AllowEntry where
  | bare (path : String)
  | override (path : String) (change : FieldOverride)

namespace AllowEntry

/-- An entry that changes nothing is bare. -/
def ofOverride (path : String) (change : FieldOverride) : AllowEntry :=
  if change.isEmpty then .bare path else .override path change

def path : AllowEntry → String
  | .bare path => path
  | .override path _ => path

def change? : AllowEntry → Option FieldOverride
  | .bare _ => none
  | .override _ change => some change

def segments (entry : AllowEntry) : List String := Path.segments entry.path

def keys (entry : AllowEntry) : List String := Path.keys entry.path

def isAt (entry : AllowEntry) (keys : List String) : Bool := entry.keys == keys

/-- The entry has more keys than `keys`, and begins with them. -/
def isBelow (entry : AllowEntry) (keys : List String) : Bool :=
  decide (keys.length < entry.keys.length) && entry.keys.take keys.length == keys

end AllowEntry

/-- An entry strictly below some path, with the segments that remain, as written and without list
markers. -/
structure Descendant where
  entry : AllowEntry
  remaining : List String
  remainingKeys : List String

structure AllowList where
  entries : List AllowEntry

namespace AllowList

def empty : AllowList := ⟨[]⟩

instance : Inhabited AllowList := ⟨empty⟩

def ofPaths (paths : List String) : AllowList := ⟨paths.map AllowEntry.bare⟩

def push (list : AllowList) (entry : AllowEntry) : AllowList := ⟨list.entries ++ [entry]⟩

def size (list : AllowList) : Nat := list.entries.length

def isEmpty (list : AllowList) : Bool := list.entries.isEmpty

def containsPath (list : AllowList) (path : String) : Bool :=
  list.entries.any fun entry => entry.isAt (Path.keys path)

def isAllowed (list : AllowList) (path : String) : Bool :=
  list.entries.any fun entry => entry.isAt (Path.keys path) || entry.isBelow (Path.keys path)

def descendants (list : AllowList) (path : String) : List Descendant :=
  let keys := Path.keys path
  (list.entries.filter fun entry => entry.isBelow keys).map fun entry =>
    ⟨entry, entry.segments.drop keys.length, entry.keys.drop keys.length⟩

/-- The number of segments of the longest entry. -/
def depth (list : AllowList) : Nat :=
  list.entries.foldl (fun bound entry => max bound entry.segments.length) 0

end AllowList

end ScopedSchema
