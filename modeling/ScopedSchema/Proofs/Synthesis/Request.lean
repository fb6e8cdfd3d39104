import ScopedSchema.Proofs.AllowList
import ScopedSchema.Proofs.Path
import ScopedSchema.Proofs.Synthesis.Step

/-!
# What a walk asks for

A walk takes in the entries below at most one relation, and that relation ends it. `request?` tells
which, so whether synthesis comes to an end is a question about chains of requests. Each request
stands at an allowed path, and away from the empty path each stands at a longer path than the one
before.
-/

namespace ScopedSchema

namespace Synthesis

open Outcome

/-- The entries below `path` are to be synthesized against `target`. -/
structure Request where
  target : String
  path : String
  skipOperations : Bool

def relationRequest? (context : Context) (field : Field) (path : String) : Option Request :=
  (context.resolveModel? field.typeTag).bind fun target =>
    if (allowedOperations context path).isEmpty then some ⟨target, path, false⟩
    else (relationOperations? context target path field.isList).map fun _ => ⟨target, path, true⟩

/-- The request of the relation that a walk comes to, if it comes to one. -/
def request? (context : Context) :
    List String → Option String → String → String → Option Request
  | [], _, _, _ => none
  | segment :: rest, previous, model, path =>
    let key := Path.keyOf segment
    let here := Path.child path key
    let scope := scopeAt context model path
    if context.isAllowed here then
      match Operator.ofKey? key with
      | some .logical => request? context rest none scope here
      | some .quantifier => request? context rest none (quantified context scope previous) here
      | some _ => none
      | none =>
        match context.registry.field? scope key with
        | none => request? context rest (some segment) scope here
        | some field =>
          if context.isLeafType field.typeTag then request? context rest (some segment) scope here
          else if rest.isEmpty || !(allowedOperations context here).isEmpty then
            relationRequest? context field here
          else (context.resolveModel? field.typeTag).bind fun target =>
            request? context rest (some segment) target here
    else none

/-- What is asked for, if anything, comes to an end. -/
def Answered (nested : Nesting) (asked : Option Request) : Prop :=
  ∀ request, asked = some request →
    Ends (nested request.target request.path request.skipOperations)

theorem answered_none (nested : Nesting) : Answered nested none := by
  intro request asked
  cases asked

theorem answered_some_iff {nested : Nesting} {request : Request} :
    Answered nested (some request) ↔
      Ends (nested request.target request.path request.skipOperations) := by
  constructor
  · intro answered
    exact answered request rfl
  · intro ends other same
    rw [← Option.some.inj same]
    exact ends

variable {context : Context}

/-! ## A walk ends if its request is answered -/

theorem relation_ends_iff {nested : Nesting} {field : Field} {isList : Bool} {path : String} :
    Ends (relation context nested field isList path) ↔
      Answered nested (relationRequest? context field path) := by
  unfold relation relationRequest?
  cases context.resolveModel? field.typeTag with
  | none => exact iff_of_true (ends_ok _) (answered_none nested)
  | some target =>
      simp only [Option.bind_some]
      cases (allowedOperations context path).isEmpty with
      | true =>
          simp only [if_true]
          rw [ends_map_iff, answered_some_iff]
      | false =>
          simp only [Bool.false_eq_true, if_false]
          cases relationOperations? context target path field.isList with
          | none => exact iff_of_true (ends_ok _) (answered_none nested)
          | some schemas =>
              simp only [Option.map_some]
              rw [ends_map_iff, answered_some_iff]

theorem terminal_ends_iff {nested : Nesting} {change : Option FieldOverride}
    {scope key path : String} {isList : Bool} :
    Ends (terminal context nested change scope key isList path) ↔
      ∀ field, context.registry.field? scope key = some field →
        context.isLeafType field.typeTag = false →
        Answered nested (relationRequest? context field path) := by
  unfold terminal
  cases context.registry.field? scope key with
  | none =>
      refine iff_of_true ?_ ?_
      · cases context.registry.hasEnum key with
        | true => exact ends_ok _
        | false => exact ends_ok _
      · intro field absent
        cases absent
  | some field =>
      cases leafType : context.isLeafType field.typeTag with
      | true =>
          simp only [leafType, if_true]
          refine iff_of_true (ends_ok _) ?_
          intro other same plain
          rw [← Option.some.inj same, leafType] at plain
          cases plain
      | false =>
          simp only [leafType, Bool.false_eq_true, if_false]
          rw [ends_map_iff, relation_ends_iff]
          constructor
          · intro answered other same _
            rw [← Option.some.inj same]
            exact answered
          · intro answered
            exact answered field rfl leafType

/-- A segment on the way ends as the rest of the walk does, unless a relation stops the walk. -/
theorem descent_ends_iff {nested : Nesting} {scope key path : String} {isList : Bool}
    {behind : String → Contribution} {asked : String → Option Request}
    {change : Option Tree → Option Tree}
    (same : ∀ next, Ends (behind next) ↔ Answered nested (asked next)) :
    Ends (match descent context nested scope key isList path with
      | .stop tree => tree.map some
      | .into next => (behind next).map change) ↔
      Answered nested (match context.registry.field? scope key with
        | none => asked scope
        | some field =>
          if context.isLeafType field.typeTag then asked scope
          else if !(allowedOperations context path).isEmpty then
            relationRequest? context field path
          else (context.resolveModel? field.typeTag).bind asked) := by
  unfold descent
  cases context.registry.field? scope key with
  | none =>
      simp only
      rw [ends_map_iff, same]
  | some field =>
      simp only
      cases context.isLeafType field.typeTag with
      | true =>
          simp only [if_true]
          rw [ends_map_iff, same]
      | false =>
          simp only [Bool.false_eq_true, if_false]
          cases (allowedOperations context path).isEmpty with
          | false =>
              simp only [Bool.not_false, if_true]
              rw [ends_map_iff, relation_ends_iff]
          | true =>
              simp only [Bool.not_true, Bool.false_eq_true, if_false]
              cases context.resolveModel? field.typeTag with
              | none => exact iff_of_true (ends_ok _) (answered_none nested)
              | some target =>
                  simp only [Option.bind_some]
                  rw [ends_map_iff, same]

theorem walk_ends_iff {nested : Nesting} {change : Option FieldOverride}
    {segments : List String} {previous : Option String} {model path : String} :
    Ends (walk context nested change segments previous model path) ↔
      Answered nested (request? context segments previous model path) := by
  induction segments generalizing previous model path with
  | nil => exact iff_of_true (ends_ok none) (answered_none nested)
  | cons segment rest induction =>
      rw [walk, request?]
      cases context.isAllowed (Path.child path (Path.keyOf segment)) with
      | false => exact iff_of_true (ends_ok none) (answered_none nested)
      | true =>
          simp only [if_true]
          rw [ends_map_iff, ← scopeAt]
          cases Operator.ofKey? (Path.keyOf segment) with
          | some operator =>
              cases operator with
              | logical =>
                  simp only
                  rw [ends_map_iff, induction]
              | quantifier => exact induction
              | pagination => exact iff_of_true (ends_ok _) (answered_none nested)
              | stringMatch => exact iff_of_true (ends_ok _) (answered_none nested)
              | membership => exact iff_of_true (ends_ok _) (answered_none nested)
              | comparison => exact iff_of_true (ends_ok _) (answered_none nested)
          | none =>
              simp only
              cases rest with
              | nil =>
                  simp only [List.isEmpty_nil, if_true, Bool.true_or, request?]
                  rw [terminal_ends_iff]
                  cases context.registry.field? (scopeAt context model path)
                    (Path.keyOf segment) with
                  | none => simp [Answered]
                  | some field =>
                      cases leafType : context.isLeafType field.typeTag with
                      | true => simp [leafType, Answered]
                      | false => simp [leafType]
              | cons next later =>
                  simp only [List.isEmpty_cons, Bool.false_eq_true, if_false, Bool.false_or]
                  exact descent_ends_iff fun next => induction

theorem nestedWithin_succ_ends_iff {depth : Nat} {target path : String} {skip : Bool} :
    Ends (nestedWithin context (depth + 1) target path skip) ↔
      ∀ descendant ∈ chosen context path skip,
        Answered (nestedWithin context depth)
          (request? context descendant.remaining none target path) := by
  rw [nestedWithin]
  show Ends (Except.map _ (List.mapM _ (chosen context path skip))) ↔ _
  rw [ends_map_iff, ends_mapM_iff]
  simp only [walk_ends_iff]

/-! ## Where requests stand -/

theorem path_of_relationRequest? {field : Field} {path : String} {request : Request}
    (asked : relationRequest? context field path = some request) : request.path = path := by
  unfold relationRequest? at asked
  rcases Option.bind_eq_some_iff.mp asked with ⟨target, _, asked⟩
  by_cases plain : (allowedOperations context path).isEmpty = true
  · rw [if_pos plain] at asked
    rw [← Option.some.inj asked]
  · rw [if_neg plain] at asked
    rcases Option.map_eq_some_iff.mp asked with ⟨schemas, _, same⟩
    rw [← same]

theorem relationRequest?_of_no_operations {field : Field} {path : String}
    (none : allowedOperations context path = []) :
    relationRequest? context field path =
      (context.resolveModel? field.typeTag).map fun target => ⟨target, path, false⟩ := by
  unfold relationRequest?
  simp only [none, List.isEmpty_nil, if_true]
  cases context.resolveModel? field.typeTag with
  | none => rfl
  | some target => rfl

/-- A request comes from the segment at hand or from those behind it. -/
theorem request?_cons {segment : String} {rest : List String} {previous : Option String}
    {model path : String} {request : Request}
    (asked : request? context (segment :: rest) previous model path = some request) :
    context.isAllowed (Path.child path (Path.keyOf segment)) = true ∧
      ((∃ field, relationRequest? context field (Path.child path (Path.keyOf segment)) =
          some request) ∨
        ∃ before next, request? context rest before next (Path.child path (Path.keyOf segment)) =
          some request) := by
  rw [request?] at asked
  by_cases allowed : context.isAllowed (Path.child path (Path.keyOf segment)) = true
  · refine ⟨allowed, ?_⟩
    simp only [allowed, if_true] at asked
    split at asked
    · exact Or.inr ⟨_, _, asked⟩
    · exact Or.inr ⟨_, _, asked⟩
    · cases asked
    · split at asked
      · exact Or.inr ⟨_, _, asked⟩
      · rename_i field _
        split at asked
        · exact Or.inr ⟨_, _, asked⟩
        · split at asked
          · exact Or.inl ⟨field, asked⟩
          · rcases Option.bind_eq_some_iff.mp asked with ⟨target, _, asked⟩
            exact Or.inr ⟨_, _, asked⟩
  · simp [allowed] at asked

theorem isAllowed_of_request? {segments : List String} {previous : Option String}
    {model path : String} {request : Request}
    (asked : request? context segments previous model path = some request) :
    context.isAllowed request.path = true := by
  induction segments generalizing previous model path with
  | nil => cases asked
  | cons segment rest induction =>
      rcases request?_cons asked with ⟨allowed, ⟨field, related⟩ | ⟨before, next, behind⟩⟩
      · rw [path_of_relationRequest? related]
        exact allowed
      · exact induction behind

theorem length_lt_of_request? {segments : List String} {previous : Option String}
    {model path : String} {request : Request} (more : path ≠ "")
    (asked : request? context segments previous model path = some request) :
    request.path ≠ "" ∧
      (Path.segments path).length < (Path.segments request.path).length := by
  induction segments generalizing previous model path with
  | nil => cases asked
  | cons segment rest induction =>
      have filled : Path.child path (Path.keyOf segment) ≠ "" := by
        intro empty
        exact more (Path.child_eq_empty_iff.mp empty).1
      have longer := Path.length_segments_lt_child more (Path.keyOf segment)
      rcases (request?_cons asked).2 with ⟨field, related⟩ | ⟨before, next, behind⟩
      · rw [path_of_relationRequest? related]
        exact ⟨filled, longer⟩
      · have further := induction filled behind
        exact ⟨further.1, by omega⟩

/-- A segment with a name leads away from the empty path for good. -/
theorem request?_path_ne_empty {segment : String} {rest : List String} {previous : Option String}
    {model : String} {request : Request} (named : Path.keyOf segment ≠ "")
    (asked : request? context (segment :: rest) previous model "" = some request) :
    request.path ≠ "" := by
  rcases (request?_cons asked).2 with ⟨field, related⟩ | ⟨before, next, behind⟩
  · rw [path_of_relationRequest? related, Path.child_empty]
    exact named
  · rw [Path.child_empty] at behind
    exact (length_lt_of_request? named behind).1

end Synthesis

end ScopedSchema
