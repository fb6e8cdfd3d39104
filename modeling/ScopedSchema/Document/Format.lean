import ScopedSchema.Document.Json.Reader
import ScopedSchema.Document.Yaml.Reader

/-!
Documents in either format. What is wrong with a document is not said, only which one it is.
-/

namespace ScopedSchema

inductive DocumentFormat where
  | json | yaml
  deriving DecidableEq

def DocumentFormat.name : DocumentFormat → String
  | json => "JSON"
  | yaml => "YAML"

/-- A document that is not well formed, or not what was looked for. -/
structure DocumentError where
  label : String
  format : DocumentFormat
  deriving DecidableEq

def DocumentError.message (error : DocumentError) : String :=
  "document load error for '" ++ error.label ++ "': invalid " ++ error.format.name

namespace Layout

variable {α : Type}

def read? (layout : Layout α) (format : DocumentFormat) (text : String) : Option α :=
  match format with
  | .json => (Json.read? text).bind layout.decode
  | .yaml => (Yaml.read? layout.shape text).bind layout.decode

/-- Reads a document; the label names it in the error. -/
def parse (layout : Layout α) (format : DocumentFormat) (label text : String) :
    Except DocumentError α :=
  match layout.read? format text with
  | some value => .ok value
  | none => .error ⟨label, format⟩

end Layout

end ScopedSchema
