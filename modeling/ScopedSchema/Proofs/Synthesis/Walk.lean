import ScopedSchema.Proofs.Synthesis.Step

/-!
# Walks segment by segment

What a walk comes to at one segment, as an equation for each kind of segment. The model that is
handed on is used where no segment of the path names one, and nowhere else.
-/

namespace ScopedSchema

namespace Synthesis

open ScopedSchema.Tree

variable {context : Context}

/-- A walk asks for the model in scope only. -/
theorem walk_congr_model {nested : Nesting} {change : Option FieldOverride} {model model' : String}
    {path : String} (same : scopeAt context model path = scopeAt context model' path)
    (segments : List String) (previous : Option String) :
    walk context nested change segments previous model path =
      walk context nested change segments previous model' path := by
  cases segments with
  | nil => rw [walk, walk]
  | cons segment rest =>
      unfold scopeAt at same
      rw [walk, walk]
      simp only [same]

/-- A relation on the way leads on. -/
theorem descent_of_followed {nested : Nesting} {scope key path next : String}
    (followed : followed? context scope key = some next)
    (free : ∀ field, context.registry.field? scope key = some field →
      context.isLeafType field.typeTag = false → allowedOperations context path = [])
    (isList : Bool) : descent context nested scope key isList path = .into next := by
  unfold followed? at followed
  unfold descent
  cases found : context.registry.field? scope key with
  | none =>
      rw [found] at followed
      rw [Option.some.inj followed]
  | some field =>
      rw [found] at followed
      cases leafType : context.isLeafType field.typeTag with
      | true =>
          simp only [leafType, if_true] at followed ⊢
          rw [Option.some.inj followed]
      | false =>
          have none := free field found leafType
          simp only [leafType, Bool.false_eq_true, if_false] at followed ⊢
          simp [none, followed]

section Steps

variable {nested : Nesting} {change : Option FieldOverride} {segment : String}
  {rest : List String} {previous : Option String} {model path : String}
  (allowed : context.isAllowed (Path.child path (Path.keyOf segment)) = true)

include allowed

theorem walk_of_logical (kind : Operator.ofKey? (Path.keyOf segment) = some .logical) :
    walk context nested change (segment :: rest) previous model path =
      (walk context nested change rest none (scopeAt context model path)
        (Path.child path (Path.keyOf segment))).map
          (Option.map (single (Path.keyOf segment) ∘ listOf)) := by
  rw [walk, if_pos allowed]
  simp only [kind]
  rw [← scopeAt]
  cases walk context nested change rest none (scopeAt context model path)
      (Path.child path (Path.keyOf segment)) with
  | error problem => rfl
  | ok found => cases found <;> rfl

theorem walk_of_quantifier (kind : Operator.ofKey? (Path.keyOf segment) = some .quantifier) :
    walk context nested change (segment :: rest) previous model path =
      (walk context nested change rest none
        (quantified context (scopeAt context model path) previous)
        (Path.child path (Path.keyOf segment))).map (Option.map (single (Path.keyOf segment))) := by
  rw [walk, if_pos allowed]
  simp only [kind]
  rfl

variable (kind : Operator.ofKey? (Path.keyOf segment) = none)

include kind

/-- A segment on the way, with a list marker or without. -/
theorem walk_of_into {next : String} (more : rest ≠ [])
    (into : descent context nested (scopeAt context model path) (Path.keyOf segment)
      (Path.endsInMarker segment) (Path.child path (Path.keyOf segment)) = .into next) :
    walk context nested change (segment :: rest) previous model path =
      (walk context nested change rest (some segment) next
        (Path.child path (Path.keyOf segment))).map
          (Option.map (single (Path.keyOf segment) ∘ markList (Path.endsInMarker segment))) := by
  have last : rest.isEmpty = false := by simpa using more
  rw [walk, if_pos allowed]
  simp only [kind, last, Bool.false_eq_true, if_false]
  rw [← scopeAt, into]
  simp only
  cases walk context nested change rest (some segment) next
      (Path.child path (Path.keyOf segment)) with
  | error problem => rfl
  | ok found => cases found <;> rfl

theorem walk_of_descent {next : String} (unmarked : Path.endsInMarker segment = false)
    (more : rest ≠ [])
    (into : descent context nested (scopeAt context model path) (Path.keyOf segment) false
      (Path.child path (Path.keyOf segment)) = .into next) :
    walk context nested change (segment :: rest) previous model path =
      (walk context nested change rest (some segment) next
        (Path.child path (Path.keyOf segment))).map (Option.map (single (Path.keyOf segment))) := by
  have plain : single (Path.keyOf segment) ∘ markList false = single (Path.keyOf segment) := rfl
  rw [← unmarked] at into
  rw [walk_of_into allowed kind more into, unmarked, plain]

variable {field : Field}
  (found : context.registry.field? (scopeAt context model path) (Path.keyOf segment) = some field)
  (related : context.isLeafType field.typeTag = false)

include found related

theorem walk_of_relation :
    walk context nested change [segment] previous model path =
      ((relation context nested field (Path.endsInMarker segment)
        (Path.child path (Path.keyOf segment))).map some).map
          (Option.map (single (Path.keyOf segment))) := by
  rw [walk, if_pos allowed]
  simp only [kind, List.isEmpty_nil, if_true]
  rw [← scopeAt, terminal, found]
  simp only [related, Bool.false_eq_true, if_false]

/-- A relation that stops the walks gives the same to all of them. -/
theorem walk_of_stops (stops : context.resolveModel? field.typeTag = none ∨
      allowedOperations context (Path.child path (Path.keyOf segment)) ≠ []) :
    walk context nested change (segment :: rest) previous model path =
      ((relation context nested field (Path.endsInMarker segment)
        (Path.child path (Path.keyOf segment))).map some).map
          (Option.map (single (Path.keyOf segment))) := by
  cases rest with
  | nil => exact walk_of_relation allowed kind found related
  | cons next rest =>
      have stopped : descent context nested (scopeAt context model path) (Path.keyOf segment)
          (Path.endsInMarker segment) (Path.child path (Path.keyOf segment)) =
          .stop (relation context nested field (Path.endsInMarker segment)
            (Path.child path (Path.keyOf segment))) := by
        rw [descent, found]
        simp only [related, Bool.false_eq_true, if_false]
        by_cases none : allowedOperations context (Path.child path (Path.keyOf segment)) = []
        · have unresolved := stops.resolve_right (not_not_intro none)
          simp [none, relation, unresolved]
        · simp [none]
      rw [walk, if_pos allowed]
      simp only [kind, List.isEmpty_cons, Bool.false_eq_true, if_false]
      rw [← scopeAt, stopped]

end Steps

end Synthesis

end ScopedSchema
