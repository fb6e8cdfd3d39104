/-!
Why a target has no schema. Paths that cannot be resolved are left out of a schema and are no
errors.
-/

namespace ScopedSchema

inductive GenerationError where
  | unknownModel (model : String)
  | invalidModelName (model : String)
  /-- Relations below the empty path lead back to themselves. -/
  | endlessNesting
  deriving DecidableEq

def GenerationError.message : GenerationError → String
  | .unknownModel model =>
    "unknown target model '" ++ model ++ "': not present in the model registry"
  | .invalidModelName model =>
    "model name '" ++ model ++ "' is not a valid identifier for the generated module"
  | .endlessNesting => "relations below the empty path nest without end"

end ScopedSchema
