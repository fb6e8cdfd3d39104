import ScopedSchema.Synthesis
import ScopedSchema.Tree.Render

/-!
Sections and modules. The trees of all allow list entries merge into one object, whose members are
the sections of the schema; a module declares the schema and its type under the model's name.
-/

namespace ScopedSchema

/-- The tree that one allow list entry contributes to the schema of a model. -/
def AllowEntry.contribution (context : Context) (model : String) (entry : AllowEntry) :
    Contribution :=
  synthesize context entry.change? entry.segments none model ""

def buildSchema (context : Context) (model : String) : Except GenerationError Tree :=
  if context.registry.hasModel model then
    (context.allow.entries.mapM (AllowEntry.contribution context model)).map fun trees =>
      (trees.filterMap id).foldl Tree.merge .emptyObject
  else .error (.unknownModel model)

def sectionsOf (schema : Tree) : List (String × Expr) :=
  (schema.members?.getD []).map fun entry => (entry.1, entry.2.render)

def buildSections (context : Context) (model : String) :
    Except GenerationError (List (String × Expr)) :=
  (buildSchema context model).map sectionsOf

def moduleText (model : String) (schema : Expr) : String :=
  "import \x7b z \x7d from 'zod';\n\nexport const " ++ model ++ "Schema = " ++ schema.text ++
    ";\n\nexport type " ++ model ++ "Type = z.infer<typeof " ++ model ++ "Schema>;\n"

/-- The name is judged before it is looked up. -/
def generateModule (context : Context) (model : String) : Except GenerationError String :=
  if isBareIdentifier model then
    (buildSchema context model).map fun schema => moduleText model schema.render
  else .error (.invalidModelName model)

end ScopedSchema
