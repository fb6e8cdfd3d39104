import ScopedSchema.Document.Value
import ScopedSchema.Table

/-!
Records and name tables inside a document. A record has members of known names; unknown ones do not
count, and a known one stands at most once. In a name table every name counts, and a repeated name
keeps its first place and takes its last value.
-/

namespace ScopedSchema

namespace Value

/-- The known name that a key stands for, if it stands for one. A number is a key by its place among
the names. -/
def memberName? (names : List String) : Value → Option (Option String)
  | .string text => some (names.find? fun name => name = text)
  | .natural place => some names[place]?
  | _ => none

def addMember? (names : List String) (members : List (String × Value)) (entry : Value × Value) :
    Option (List (String × Value)) :=
  match memberName? names entry.1 with
  | none => none
  | some none => some members
  | some (some name) =>
    if (members.lookup name).isSome then none else some (members ++ [(name, entry.2)])

def entries? : Value → Option (List (Value × Value))
  | .table entries => some entries
  | _ => none

/-- The known members of a record that is written as a table. -/
def tableMembers? (names : List String) (value : Value) : Option (List (String × Value)) :=
  value.entries?.bind fun entries => entries.foldlM (addMember? names) []

/-- The known members of a record. Written as a list, it gives them in order and may leave out the
last ones. -/
def members? (names : List String) : Value → Option (List (String × Value))
  | .list items => if items.length ≤ names.length then some (names.zip items) else none
  | value => value.tableMembers? names

/-- Reads a member that may be absent. -/
def memberOr? {α : Type} (members : List (String × Value)) (name : String) (absent : α)
    (decode : Value → Option α) : Option α :=
  match members.lookup name with
  | some value => decode value
  | none => some absent

def listOf? {α : Type} (decode : Value → Option α) (value : Value) : Option (List α) :=
  value.items?.bind fun items => items.mapM decode

def nameTable? {α : Type} (decode : Value → Option α) (value : Value) : Option (Table α) :=
  value.entries?.bind fun entries =>
    (entries.mapM fun (entry : Value × Value) => do
      return (← entry.1.text?, ← decode entry.2)).map Table.ofList

/-- Text, or nothing where null stands. -/
def optionalText? : Value → Option (Option String)
  | .null => some none
  | .string text => some (some text)
  | _ => none

end Value

end ScopedSchema
