import ScopedSchema.Expansion

/-!
# Expansion depends on allowed paths only

An expansion asks the allow list which paths at its place and below are allowed and nothing else, so
it is the same for every allow list that allows the same paths there.
-/

namespace ScopedSchema

/-- The same registry and synonyms under another allow list. -/
def Context.withAllow (context : Context) (allow : AllowList) : Context :=
  { context with allow := allow }

variable (context : Context)

theorem expandModel_of_visited {name path : String} {trail : Trail}
    (visited : trail.contains name = true) : expandModel context name path trail = .any := by
  rw [expandModel, dif_pos visited]

theorem expandModel_of_unregistered {name path : String} {trail : Trail}
    (fresh : ¬ trail.contains name = true) (absent : context.registry.model? name = none) :
    expandModel context name path trail = .any := by
  rw [expandModel, dif_neg fresh]
  split
  · rfl
  · rename_i found
    rw [absent] at found
    cases found

theorem expandModel_of_registered {name path : String} {trail : Trail} {model : Model}
    (fresh : ¬ trail.contains name = true) (found : context.registry.model? name = some model) :
    expandModel context name path trail =
      .object (model.fields.entries.filterMap fun entry =>
        if context.isAllowed (Path.child path entry.1) then
          let expr :=
            if context.isLeafType entry.2.typeTag then
              context.registry.leafExpr entry.2.typeTag
            else
              expandModel context ((context.resolveModel? entry.2.typeTag).getD entry.2.typeTag)
                (Path.child path entry.1) (name :: trail)
          some (entry.1, if entry.2.isOptional then expr.nullish else expr)
        else none) := by
  rw [expandModel, dif_neg fresh]
  split
  · rename_i absent
    rw [absent] at found
    cases found
  · rename_i other same
    rw [found] at same
    cases same
    rfl

/-- The allow lists decide alike at the places of a region. Whatever stands below a place of the
region belongs to it too. -/
structure Context.AgreesOn (context : Context) (allow : AllowList) (within : String → Prop) :
    Prop where
  below : ∀ {path}, within path → ∀ segment, within (Path.child path segment)
  allowed : ∀ {path}, within path → allow.isAllowed path = context.allow.isAllowed path

namespace Context.AgreesOn

variable {context} {allow : AllowList} {within : String → Prop}

theorem everywhere (same : ∀ path, allow.isAllowed path = context.allow.isAllowed path) :
    context.AgreesOn allow fun _ => True where
  below := fun _ _ => trivial
  allowed := fun _ => same _

variable (agrees : context.AgreesOn allow within)

include agrees

theorem expandModel {path : String} (inside : within path) (name : String) (trail : Trail) :
    ScopedSchema.expandModel (context.withAllow allow) name path trail =
      ScopedSchema.expandModel context name path trail := by
  induction name, path, trail using expandModel.induct context with
  | case1 name path trail visited =>
      rw [expandModel_of_visited _ visited, expandModel_of_visited _ visited]
  | case2 name path trail fresh absent =>
      rw [expandModel_of_unregistered context fresh absent,
        expandModel_of_unregistered (context.withAllow allow) fresh absent]
  | case3 name path trail fresh model found induction =>
      rw [expandModel_of_registered context fresh found,
        expandModel_of_registered (context.withAllow allow) fresh found]
      congr 2
      funext entry
      have deeper := agrees.below inside entry.1
      have allowed : (context.withAllow allow).isAllowed (Path.child path entry.1) =
          context.isAllowed (Path.child path entry.1) := agrees.allowed deeper
      have expanded := induction entry deeper
      have resolved : (context.withAllow allow).resolveModel? entry.2.typeTag =
          context.resolveModel? entry.2.typeTag := rfl
      rw [allowed, resolved, expanded]
      rfl

theorem mapType {path : String} (inside : within path) (tag : String) (values : List String)
    (trail : Trail) :
    ScopedSchema.mapType (context.withAllow allow) tag path values trail =
      ScopedSchema.mapType context tag path values trail := by
  unfold ScopedSchema.mapType
  have allowed : (context.withAllow allow).isAllowed path = context.isAllowed path :=
    agrees.allowed inside
  simp only [agrees.expandModel inside, allowed]
  rfl

end Context.AgreesOn

end ScopedSchema
