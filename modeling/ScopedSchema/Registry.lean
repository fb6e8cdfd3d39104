import ScopedSchema.Table

/-!
The data model that schemas are written against: models with ordered fields, and enums with
ordered members. The type tag of a field names a scalar type, an enum or another model.
-/

namespace ScopedSchema

inductive ScalarType where
  | string | int | float | boolean | dateTime | json | bigInt | decimal | bytes
  deriving DecidableEq

structure UnknownScalar where
  tag : String
  deriving DecidableEq

def UnknownScalar.message (failure : UnknownScalar) : String :=
  "unknown scalar type tag: " ++ failure.tag

namespace ScalarType

def all : List ScalarType :=
  [string, int, float, boolean, dateTime, json, bigInt, decimal, bytes]

def tag : ScalarType → String
  | string => "String"
  | int => "Int"
  | float => "Float"
  | boolean => "Boolean"
  | dateTime => "DateTime"
  | json => "Json"
  | bigInt => "BigInt"
  | decimal => "Decimal"
  | bytes => "Bytes"

def ofTag? (text : String) : Option ScalarType :=
  all.find? fun scalar => scalar.tag = text

def ofTag (text : String) : Except UnknownScalar ScalarType :=
  match ofTag? text with
  | some scalar => .ok scalar
  | none => .error ⟨text⟩

theorem ofTag?_tag (scalar : ScalarType) : ofTag? scalar.tag = some scalar := by
  cases scalar <;> decide

theorem tag_of_ofTag? {text : String} {scalar : ScalarType}
    (found : ofTag? text = some scalar) : scalar.tag = text := by
  simpa using List.find?_some found

end ScalarType

structure Field where
  typeTag : String
  isOptional : Bool := false
  isList : Bool := false
  isUnique : Bool := false
  isId : Bool := false
  deriving DecidableEq

namespace Field

def asOptional (field : Field) : Field := { field with isOptional := true }

def asList (field : Field) : Field := { field with isList := true }

def asUnique (field : Field) : Field := { field with isUnique := true }

def asId (field : Field) : Field := { field with isId := true }

def scalarType? (field : Field) : Option ScalarType := ScalarType.ofTag? field.typeTag

/-- A scalar field marked unique or id tells the records of its model apart. -/
def isIdentifier (field : Field) : Bool :=
  field.scalarType?.isSome && (field.isUnique || field.isId)

end Field

structure Model where
  fields : Table Field
  deriving DecidableEq

namespace Model

instance : Inhabited Model := ⟨⟨Table.empty⟩⟩

def field? (model : Model) (name : String) : Option Field := model.fields.find? name

/-- The first identifier in field order; write operations address records by it. -/
def identifier? (model : Model) : Option (String × Field) :=
  model.fields.entries.find? fun entry => entry.2.isIdentifier

end Model

structure Registry where
  models : Table Model
  enums : Table (List String)
  deriving DecidableEq

namespace Registry

def empty : Registry := ⟨Table.empty, Table.empty⟩

instance : Inhabited Registry := ⟨empty⟩

def withModel (registry : Registry) (name : String) (model : Model) : Registry :=
  { registry with models := registry.models.insert name model }

def withEnum (registry : Registry) (name : String) (members : List String) : Registry :=
  { registry with enums := registry.enums.insert name members }

def model? (registry : Registry) (name : String) : Option Model := registry.models.find? name

def hasModel (registry : Registry) (name : String) : Bool := registry.models.contains name

def field? (registry : Registry) (model field : String) : Option Field :=
  (registry.model? model).bind fun found => found.field? field

def enum? (registry : Registry) (name : String) : Option (List String) :=
  registry.enums.find? name

def hasEnum (registry : Registry) (name : String) : Bool := registry.enums.contains name

/-- Values of such a type are not followed into another model. -/
def isLeafType (registry : Registry) (tag : String) : Bool :=
  (ScalarType.ofTag? tag).isSome || registry.hasEnum tag

end Registry

end ScopedSchema
