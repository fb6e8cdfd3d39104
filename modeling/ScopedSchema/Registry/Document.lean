import ScopedSchema.Document.Json.Writer
import ScopedSchema.Document.Record
import ScopedSchema.Document.Shape
import ScopedSchema.Registry

/-!
Registry documents: models by name with their fields by name, and enums by name with their members.
A flag that is absent does not hold.
-/

namespace ScopedSchema

namespace Field

def memberNames : List String := ["fieldType", "isOptional", "isList", "isUnique", "isId"]

def ofValue? (value : Value) : Option Field := do
  let members ← value.members? memberNames
  return {
    typeTag := ← (members.lookup "fieldType").bind Value.text?
    isOptional := ← Value.memberOr? members "isOptional" false Value.flag?
    isList := ← Value.memberOr? members "isList" false Value.flag?
    isUnique := ← Value.memberOr? members "isUnique" false Value.flag?
    isId := ← Value.memberOr? members "isId" false Value.flag? }

def shape : Shape :=
  .record [("fieldType", .text), ("isOptional", .flag), ("isList", .flag), ("isUnique", .flag),
    ("isId", .flag)]

def jsonText (field : Field) : String :=
  Json.tableText [("fieldType", Quoted.encode field.typeTag),
    ("isOptional", Json.flagText field.isOptional), ("isList", Json.flagText field.isList),
    ("isUnique", Json.flagText field.isUnique), ("isId", Json.flagText field.isId)]

end Field

namespace Model

def ofValue? (value : Value) : Option Model := (value.nameTable? Field.ofValue?).map Model.mk

def jsonText (model : Model) : String :=
  Json.tableText (model.fields.entries.map fun entry => (entry.1, entry.2.jsonText))

end Model

namespace Registry

def ofValue? (value : Value) : Option Registry := do
  let members ← value.members? ["models", "enums"]
  return {
    models := ← Value.memberOr? members "models" Table.empty (Value.nameTable? Model.ofValue?)
    enums := ← Value.memberOr? members "enums" Table.empty
      (Value.nameTable? (Value.listOf? Value.text?)) }

def shape : Shape :=
  .record [("models", .table (.table Field.shape)), ("enums", .table (.list .text))]

def layout : Layout Registry := ⟨shape, ofValue?⟩

def jsonText (registry : Registry) : String :=
  Json.tableText [
    ("models", Json.tableText (registry.models.entries.map fun entry =>
      (entry.1, entry.2.jsonText))),
    ("enums", Json.tableText (registry.enums.entries.map fun entry =>
      (entry.1, Json.listText (entry.2.map Quoted.encode))))]

end Registry

end ScopedSchema
