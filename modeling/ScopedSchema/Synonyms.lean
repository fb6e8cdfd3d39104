import ScopedSchema.Path
import ScopedSchema.Registry

/-!
Synonym tables. Paths name a relation by its field, so a table lists for each canonical model name
the aliases that stand for it, and a segment of a path can be led back to the model it refers to.
-/

namespace ScopedSchema

structure Synonyms where
  aliases : Table (List String)
  deriving DecidableEq

namespace Synonyms

def empty : Synonyms := ⟨Table.empty⟩

instance : Inhabited Synonyms := ⟨empty⟩

/-- Adds to the aliases that `canonical` already has. -/
def withAliases (synonyms : Synonyms) (canonical : String) (added : List String) : Synonyms :=
  ⟨synonyms.aliases.insert canonical
    ((synonyms.aliases.find? canonical).getD [] ++ added)⟩

/-- The first canonical name, in table order, that lists the alias. -/
def canonical? (synonyms : Synonyms) (name : String) : Option String :=
  (synonyms.aliases.entries.find? fun entry => entry.2.contains name).map Prod.fst

/-- Looks up the key when there is one, and the model's own name otherwise. -/
def resolveName? (synonyms : Synonyms) (name : String) (key : Option String) : Option String :=
  synonyms.canonical? (key.getD name)

end Synonyms

namespace Registry

/-- The registered model that one segment refers to, by its own name or by a synonym. -/
def modelOfSegment? (registry : Registry) (synonyms : Synonyms) (segment : String) :
    Option String :=
  if registry.hasModel segment then some segment
  else (synonyms.canonical? segment).filter fun name => registry.hasModel name

/-- The model that a path refers to: its last segment that refers to one decides. -/
def modelOfSegments? (registry : Registry) (synonyms : Synonyms) (segments : List String) :
    Option String :=
  segments.reverse.findSome? fun segment => registry.modelOfSegment? synonyms segment

theorem hasModel_of_modelOfSegment? {registry : Registry} {synonyms : Synonyms}
    {segment name : String} (found : registry.modelOfSegment? synonyms segment = some name) :
    registry.hasModel name = true := by
  unfold modelOfSegment? at found
  split at found
  · rename_i registered
    rw [← Option.some.inj found]
    exact registered
  · exact (Option.filter_eq_some_iff.mp found).2

end Registry

end ScopedSchema
