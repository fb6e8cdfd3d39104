import ScopedSchema.AllowList
import ScopedSchema.Document.Record
import ScopedSchema.Document.Shape

/-!
Allow list documents. An entry is a path, or a table with a name and perhaps a type and a message.
Entries of any other form are dropped; they never spoil the document, unless a key in them is no
text.
-/

namespace ScopedSchema

namespace TypeOverride

mutual

def ofValue? : Value → Option TypeOverride
  | .null => some (.other .null)
  | .bool flag => some (.other (@PlainValue.bool flag))
  | .natural number => some (.other (@PlainValue.number (some number)))
  | .number isFinite => some (.other (if isFinite then @PlainValue.number none else .null))
  | .string name => some (.named name)
  | .list items => (ofItems? items).map .list
  | .table entries => (ofEntries? entries).map fun members => .object (Table.ofList members).entries
  | .unreadable => none

def ofItems? : List Value → Option (List TypeOverride)
  | [] => some []
  | item :: rest => do return (← ofValue? item) :: (← ofItems? rest)

def ofEntries? : List (Value × Value) → Option (List (String × TypeOverride))
  | [] => some []
  | (key, value) :: rest => do
    return (← key.text?, ← ofValue? value) :: (← ofEntries? rest)

end

end TypeOverride

namespace AllowEntry

def optionalType? : Value → Option (Option TypeOverride)
  | .null => some none
  | value => (TypeOverride.ofValue? value).map some

/-- A table without a name gives no entry. -/
def ofMembers? (members : List (String × Value)) : Option (Option AllowEntry) := do
  let name ← Value.memberOr? members "name" none Value.optionalText?
  let type ← Value.memberOr? members "type" none optionalType?
  let message ← Value.memberOr? members "message" none Value.optionalText?
  return name.map fun path => ofOverride path ⟨type, message⟩

def ofTable? (value : Value) : Option (Option AllowEntry) :=
  (value.tableMembers? ["name", "type", "message"]).bind ofMembers?

/-- The entry that an item of the list gives, if it gives one. -/
def ofValue? (value : Value) : Option (Option AllowEntry) :=
  match value.text? with
  | some path => some (some (.bare path))
  | none =>
    if value.isReadable then
      (ofTable? value).or (if value.hasTextKeys then some none else none)
    else none

end AllowEntry

namespace AllowList

def ofValue? (value : Value) : Option AllowList :=
  (value.listOf? AllowEntry.ofValue?).map fun entries => ⟨entries.filterMap id⟩

def shape : Shape := .list .anything

def layout : Layout AllowList := ⟨shape, ofValue?⟩

end AllowList

end ScopedSchema
