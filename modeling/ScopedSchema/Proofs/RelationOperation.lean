import Mathlib.Data.List.Nodup
import ScopedSchema.Proofs.Expansion
import ScopedSchema.RelationOperation

/-!
# The operations of a relation

The schemas of a relation are those of the operations allowed below its path, once each and in
their fixed order. They depend on which paths at its place and below are allowed, and on nothing
else of the allow list.
-/

namespace ScopedSchema

namespace RelationOperation

theorem name_injective : Function.Injective name := by
  intro first second same
  have found := ofName?_name first
  rw [same, ofName?_name] at found
  exact (Option.some.inj found).symm

theorem isName_name (operation : RelationOperation) : isName operation.name = true := by
  rw [isName, ofName?_name]
  rfl

theorem keys_name (operation : RelationOperation) :
    Path.keys operation.name = [operation.name] := by
  cases operation <;> decide

end RelationOperation

variable {context : Context}

theorem mem_allowedOperations_iff {path : String} {operation : RelationOperation} :
    operation ∈ allowedOperations context path ↔
      context.isAllowed (Path.child path operation.name) = true := by
  have listed : operation ∈ RelationOperation.all := by cases operation <;> decide
  rw [allowedOperations, List.mem_filter]
  exact and_iff_right listed

theorem allowedOperations_nodup (context : Context) (path : String) :
    (allowedOperations context path).Nodup := by
  have once : RelationOperation.all.Nodup := by decide
  exact once.filter _

theorem operations_of_relationOperations? {model path : String} {isList : Bool}
    {schemas : List (RelationOperation × Expr)}
    (found : relationOperations? context model path isList = some schemas) :
    schemas.map Prod.fst = allowedOperations context path := by
  unfold relationOperations? at found
  split at found
  · cases found
  · rw [← Option.some.inj found, List.map_map]
    exact List.map_id _

/-- No operation has two schemas. -/
theorem names_nodup_of_relationOperations? {model path : String} {isList : Bool}
    {schemas : List (RelationOperation × Expr)}
    (found : relationOperations? context model path isList = some schemas) :
    (schemas.map fun entry => entry.1.name).Nodup := by
  have names : (schemas.map fun entry => entry.1.name) =
      (allowedOperations context path).map RelationOperation.name := by
    rw [← operations_of_relationOperations? found, List.map_map]
    rfl
  rw [names]
  exact (allowedOperations_nodup context path).map RelationOperation.name_injective

section Agreement

variable {allow : AllowList} {within : String → Prop}

theorem Context.AgreesOn.allowedOperations (agrees : context.AgreesOn allow within)
    {path : String} (inside : within path) :
    ScopedSchema.allowedOperations (context.withAllow allow) path =
      ScopedSchema.allowedOperations context path := by
  apply List.filter_congr
  intro operation _
  exact agrees.allowed (agrees.below inside operation.name)

theorem Context.AgreesOn.relationOperations? (agrees : context.AgreesOn allow within)
    {path : String} (inside : within path) (model : String) (isList : Bool) :
    ScopedSchema.relationOperations? (context.withAllow allow) model path isList =
      ScopedSchema.relationOperations? context model path isList := by
  unfold ScopedSchema.relationOperations?
  cases found : (context.registry.model? model).bind Model.identifier? with
  | none =>
      have absent : ((context.withAllow allow).registry.model? model).bind Model.identifier? =
          none := found
      rw [absent]
  | some identified =>
      have present : ((context.withAllow allow).registry.model? model).bind Model.identifier? =
          some identified := found
      rw [present]
      obtain ⟨identifier, field⟩ := identified
      simp only [agrees.allowedOperations inside]
      congr 1
      apply List.map_congr_left
      intro operation _
      have payload : ∀ suffix : String, RelationTarget.payload (context.withAllow allow)
          ⟨model, path, isList, identifier⟩ suffix =
            RelationTarget.payload context ⟨model, path, isList, identifier⟩ suffix := by
        intro suffix
        exact agrees.expandModel (agrees.below inside suffix) _ _
      have place := agrees.below (agrees.below (agrees.below inside operation.name) "where")
        identifier
      rw [agrees.mapType place]
      cases operation <;> simp only [RelationTarget.schema, payload]

theorem allowedOperations_withAllow
    (same : ∀ path, allow.isAllowed path = context.allow.isAllowed path) (path : String) :
    allowedOperations (context.withAllow allow) path = allowedOperations context path :=
  (Context.AgreesOn.everywhere same).allowedOperations trivial

theorem relationOperations?_withAllow
    (same : ∀ path, allow.isAllowed path = context.allow.isAllowed path) (model path : String)
    (isList : Bool) :
    relationOperations? (context.withAllow allow) model path isList =
      relationOperations? context model path isList :=
  (Context.AgreesOn.everywhere same).relationOperations? trivial model isList

end Agreement

end ScopedSchema
