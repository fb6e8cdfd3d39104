import ScopedSchema.Document.Value

/-!
What a reader looks for in a document. In YAML the shape decides what a plain word means: where text
is looked for, every word is text.
-/

namespace ScopedSchema

inductive Shape where
  | text
  | optionalText
  | flag
  | anything
  | list (item : Shape)
  | table (value : Shape)
  | record (members : List (String × Shape))

/-- How values of a type are written in documents. -/
structure Layout (α : Type) where
  shape : Shape
  decode : Value → Option α

end ScopedSchema
