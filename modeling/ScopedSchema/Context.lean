import ScopedSchema.AllowList
import ScopedSchema.Synonyms

/-!
What one target is generated from: a registry, the synonyms of the target and its allow list.
-/

namespace ScopedSchema

structure Context where
  registry : Registry
  synonyms : Synonyms
  allow : AllowList

namespace Context

def isAllowed (context : Context) (path : String) : Bool := context.allow.isAllowed path

/-- The registered model that a type tag means. A registered canonical name goes before the tag
itself. -/
def resolveModel? (context : Context) (tag : String) : Option String :=
  let candidate :=
    ((context.synonyms.canonical? tag).filter fun name => context.registry.hasModel name).getD tag
  if context.registry.hasModel candidate then some candidate else none

def modelOfPath? (context : Context) (path : String) : Option String :=
  context.registry.modelOfSegments? context.synonyms (Path.segments path)

def isLeafType (context : Context) (tag : String) : Bool := context.registry.isLeafType tag

theorem hasModel_of_resolveModel? {context : Context} {tag name : String}
    (found : context.resolveModel? tag = some name) : context.registry.hasModel name = true := by
  unfold resolveModel? at found
  simp only at found
  split at found
  · rename_i registered
    rw [← Option.some.inj found]
    exact registered
  · exact absurd found (by simp)

/-- A registered name always resolves, if only to itself. -/
theorem hasModel_eq_false_of_resolveModel? {context : Context} {tag : String}
    (unresolved : context.resolveModel? tag = none) : context.registry.hasModel tag = false := by
  unfold resolveModel? at unresolved
  cases candidate : (context.synonyms.canonical? tag).filter
      fun name => context.registry.hasModel name with
  | none => simpa [candidate] using unresolved
  | some name =>
    have registered := (Option.filter_eq_some_iff.mp candidate).2
    simp [candidate, registered] at unresolved

end Context

end ScopedSchema
