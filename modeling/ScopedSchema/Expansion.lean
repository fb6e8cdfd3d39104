import ScopedSchema.Context
import ScopedSchema.Zod.Leaf

/-!
Whole-model expansion: a model printed as the object of its fields that are allowed below a path.
Models refer to each other, so the models being expanded are kept on a trail; a model that is on it
already stands for any value, and a trail can only grow by registered models.
-/

namespace ScopedSchema

/-- The models being expanded, innermost first. -/
abbrev Trail := List String

namespace Trail

/-- How many of the names are not on the trail. -/
def unvisited (names : List String) (trail : Trail) : Nat :=
  names.countP fun name => !trail.contains name

theorem unvisited_cons_le (names : List String) (trail : Trail) (name : String) :
    unvisited names (name :: trail) ≤ unvisited names trail := by
  apply List.countP_mono_left
  intro other _ outside
  simp only [List.contains_cons, Bool.not_or, Bool.and_eq_true] at outside
  exact outside.2

theorem unvisited_cons_lt {names : List String} {trail : Trail} {name : String}
    (member : name ∈ names) (fresh : trail.contains name = false) :
    unvisited names (name :: trail) < unvisited names trail := by
  induction names with
  | nil => cases member
  | cons other rest induction =>
    by_cases same : name = other
    · subst same
      have step := unvisited_cons_le rest trail name
      unfold unvisited at step ⊢
      rw [List.countP_cons_of_neg (by simp), List.countP_cons_of_pos (by simpa using fresh)]
      omega
    · have step := induction ((List.mem_cons.mp member).resolve_left same)
      have alike : (name :: trail).contains other = trail.contains other := by
        rw [List.contains_cons, beq_false_of_ne (fun equal : other = name => same equal.symm),
          Bool.false_or]
      unfold unvisited at step ⊢
      rw [List.countP_cons, List.countP_cons, alike]
      omega

end Trail

/-- A model without allowed fields is an empty object; a model that is not registered or is being
expanded already stands for any value. -/
def expandModel (context : Context) (name path : String) (trail : Trail) : Expr :=
  if _ : trail.contains name then .any
  else
    match _ : context.registry.model? name with
    | none => .any
    | some model =>
      .object (model.fields.entries.filterMap fun entry =>
        let below := Path.child path entry.1
        if context.isAllowed below then
          let tag := entry.2.typeTag
          let expr :=
            if context.isLeafType tag then context.registry.leafExpr tag
            else expandModel context ((context.resolveModel? tag).getD tag) below (name :: trail)
          some (entry.1, if entry.2.isOptional then expr.nullish else expr)
        else none)
termination_by Trail.unvisited context.registry.models.names trail
decreasing_by
  rename_i fresh found _ _
  exact Trail.unvisited_cons_lt (Table.mem_names_of_find? found) (by simpa using fresh)

/-- The expression of a type tag found at a path. Listed values narrow a scalar type or an enum to
themselves. -/
def mapType (context : Context) (tag path : String) (values : List String) (trail : Trail) :
    Expr :=
  if context.isLeafType tag then
    if values.isEmpty then context.registry.leafExpr tag else .enumeration values
  else
    match context.resolveModel? tag with
    | none => .any
    | some model => if context.isAllowed path then expandModel context model path trail else .any

end ScopedSchema
