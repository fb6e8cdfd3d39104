import ScopedSchema.Registry
import ScopedSchema.Zod.Expr

/-!
Expressions of types that are not followed into a model: scalar types and enums. An enum goes
before a scalar type of the same name.
-/

namespace ScopedSchema

def ScalarType.expr : ScalarType → Expr
  | .string => .string
  | .int => ⟨"z.number().int()"⟩
  | .float => .number
  | .boolean => .boolean
  | .dateTime => ⟨"z.date()"⟩
  | .json => .any
  | .bigInt => ⟨"z.bigint()"⟩
  | .decimal => .string
  | .bytes => ⟨"z.instanceof(Buffer)"⟩

def Registry.leafExpr (registry : Registry) (tag : String) : Expr :=
  match registry.enum? tag with
  | some members => .enumeration members
  | none => ((ScalarType.ofTag? tag).map ScalarType.expr).getD .any

end ScopedSchema
