import ScopedSchema.Proofs.Synthesis.Walk

/-!
# Quantifiers behind a relation

A quantifier looks the relation before it up once more, on the model in scope behind the relation.
That is the target of the relation already, unless the path names another model. So the rest of the
path is typed against the target only if the target has no field of the same name, or one that leads
back to it, or if the path names a model anyway.
-/

namespace ScopedSchema

namespace Synthesis

open ScopedSchema.Tree

/-- The path of the segments behind the quantifier. -/
def quantifiedPath (segment quantifier path : String) : String :=
  Path.child (Path.child path (Path.keyOf segment)) (Path.keyOf quantifier)

/-- The tree of the relation, where `tree` is that of the segments behind the quantifier. -/
def quantifiedTree (segment quantifier : String) (tree : Tree) : Tree :=
  .single (Path.keyOf segment)
    (markList (Path.endsInMarker segment) (.single (Path.keyOf quantifier) tree))

/-- The model that a quantifier behind the relation ranges over. -/
def rangedOver (context : Context) (segment target path : String) : String :=
  quantified context (scopeAt context target (Path.child path (Path.keyOf segment))) (some segment)

/-- Below `path` the segment names a relation to the target, without operations below it, and a
quantifier follows. Both are allowed. -/
structure QuantifiedRelation (context : Context) (segment quantifier model path : String)
    (field : Field) (target : String) : Prop where
  plain : Operator.ofKey? (Path.keyOf segment) = none
  found : context.registry.field? (scopeAt context model path) (Path.keyOf segment) = some field
  related : context.isLeafType field.typeTag = false
  resolved : context.resolveModel? field.typeTag = some target
  quantifies : Operator.ofKey? (Path.keyOf quantifier) = some .quantifier
  free : allowedOperations context (Path.child path (Path.keyOf segment)) = []
  entered : context.isAllowed (Path.child path (Path.keyOf segment)) = true
  allowed : context.isAllowed (quantifiedPath segment quantifier path) = true

variable {context : Context} {segment quantifier model path target : String} {field : Field}

theorem scopeAt_eq_iff {other : String} :
    scopeAt context other path = scopeAt context target path ↔
      (context.modelOfPath? path).isSome = true ∨ other = target := by
  unfold scopeAt
  cases context.modelOfPath? path with
  | none => simp
  | some named => simp

/-- Where the path names no model, a quantifier finds the target again exactly if the target has no
field of the name of the relation, or one that leads to itself. -/
theorem rangedOver_eq_iff (registered : context.registry.hasModel target = true)
    (unnamed : context.modelOfPath? (Path.child path (Path.keyOf segment)) = none) :
    rangedOver context segment target path = target ↔
      ∀ other, context.registry.field? target (Path.keyOf segment) = some other →
        context.resolveModel? other.typeTag = some target := by
  have scope : scopeAt context target (Path.child path (Path.keyOf segment)) = target := by
    rw [scopeAt, unnamed, Option.getD_none]
  rw [rangedOver, scope, quantified, parentField?, Option.bind_some]
  cases context.registry.field? target (Path.keyOf segment) with
  | none => simp
  | some other =>
      simp only [Option.some.injEq, forall_eq']
      cases resolved : context.resolveModel? other.typeTag with
      | none =>
          have absent := Context.hasModel_eq_false_of_resolveModel? resolved
          simp only [Option.getD_none, reduceCtorEq, iff_false]
          intro same
          rw [same, registered] at absent
          cases absent
      | some next => simp

/-- A walk over a relation and a quantifier. The segments behind the quantifier are typed against the
model that it ranges over. -/
theorem walk_of_quantifiedRelation {nested : Nesting} {change : Option FieldOverride}
    {rest : List String} {previous : Option String}
    (place : QuantifiedRelation context segment quantifier model path field target) :
    walk context nested change (segment :: quantifier :: rest) previous model path =
      (walk context nested change rest none (rangedOver context segment target path)
        (quantifiedPath segment quantifier path)).map
          (Option.map (quantifiedTree segment quantifier)) := by
  have followed : followed? context (scopeAt context model path) (Path.keyOf segment) =
      some target := by
    rw [followed?, place.found]
    simp only [place.related, Bool.false_eq_true, if_false, place.resolved]
  have into : descent context nested (scopeAt context model path) (Path.keyOf segment)
      (Path.endsInMarker segment) (Path.child path (Path.keyOf segment)) = .into target :=
    descent_of_followed followed (fun _ _ _ => place.free) (Path.endsInMarker segment)
  rw [walk_of_into place.entered place.plain (List.cons_ne_nil quantifier rest) into,
    walk_of_quantifier place.allowed place.quantifies, ← rangedOver, ← quantifiedPath]
  cases walk context nested change rest none (rangedOver context segment target path)
      (quantifiedPath segment quantifier path) with
  | error problem => rfl
  | ok tree => cases tree <;> rfl

end Synthesis

open Synthesis

/-- Behind a relation and a quantifier the rest of a path is typed against the model that the
quantifier ranges over. That is the target of the relation, unless the target has a field of the same
name that leads to another model. It makes no difference if a segment of the path names a model. -/
theorem synthesize_quantifiedRelation {context : Context}
    {segment quantifier model path target : String} {field : Field}
    (place : QuantifiedRelation context segment quantifier model path field target)
    (change : Option FieldOverride) (rest : List String) (previous : Option String) :
    synthesize context change (segment :: quantifier :: rest) previous model path =
        (synthesize context change rest none (rangedOver context segment target path)
          (quantifiedPath segment quantifier path)).map
            (Option.map (quantifiedTree segment quantifier)) ∧
      ((context.modelOfPath? (quantifiedPath segment quantifier path)).isSome = true ∨
          rangedOver context segment target path = target →
        synthesize context change (segment :: quantifier :: rest) previous model path =
          (synthesize context change rest none target
            (quantifiedPath segment quantifier path)).map
              (Option.map (quantifiedTree segment quantifier))) ∧
      (context.modelOfPath? (Path.child path (Path.keyOf segment)) = none →
        (rangedOver context segment target path = target ↔
          ∀ other, context.registry.field? target (Path.keyOf segment) = some other →
            context.resolveModel? other.typeTag = some target)) := by
  refine ⟨?_, ?_, rangedOver_eq_iff (Context.hasModel_of_resolveModel? place.resolved)⟩
  · exact walk_of_quantifiedRelation place
  · intro kept
    rw [synthesize, synthesize, ← walk_congr_model (scopeAt_eq_iff.mpr kept)]
    exact walk_of_quantifiedRelation place

/-- The children of a category are categories. -/
def categories : Context where
  registry :=
    { models := ⟨[("category", ⟨⟨[
        ("name", { typeTag := "String" }),
        ("children", { typeTag := "category", isList := true })], by decide⟩⟩)], by decide⟩
      enums := Table.empty }
  synonyms := Synonyms.empty
  allow := AllowList.ofPaths ["where.children.some.name"]

theorem quantifiedRelation_categories :
    QuantifiedRelation categories "children" "some" "category" "where"
      { typeTag := "category", isList := true } "category" where
  plain := by decide +kernel
  found := by decide +kernel
  related := by decide +kernel
  resolved := by decide +kernel
  quantifies := by decide +kernel
  free := by decide +kernel
  entered := by decide +kernel
  allowed := by decide +kernel

theorem synthesize_quantifiedRelation_categories :
    QuantifiedRelation categories "children" "some" "category" "where"
        { typeTag := "category", isList := true } "category" ∧
      rangedOver categories "children" "category" "where" = "category" ∧
      synthesize categories none ["children", "some", "name"] none "category" "where" =
        (synthesize categories none ["name"] none "category" "where.children.some").map
          (Option.map (quantifiedTree "children" "some")) ∧
      synthesize categories none ["name"] none "category" "where.children.some" =
        .ok (some (.single "name" (.leaf .string))) := by
  have kept : rangedOver categories "children" "category" "where" = "category" := by
    decide +kernel
  have place : quantifiedPath "children" "some" "where" = "where.children.some" := by
    decide +kernel
  obtain ⟨_, typed, _⟩ :=
    synthesize_quantifiedRelation quantifiedRelation_categories none ["name"] none
  rw [place] at typed
  exact ⟨quantifiedRelation_categories, kept, typed (Or.inr kept), by rfl⟩

/-- The items of a user are orders, and the items of an order are products. -/
def orders : Context where
  registry :=
    { models := ⟨[
        ("user", ⟨⟨[("items", { typeTag := "order", isList := true })], by decide⟩⟩),
        ("order", ⟨⟨[
          ("name", { typeTag := "String" }),
          ("items", { typeTag := "product", isList := true })], by decide⟩⟩),
        ("product", ⟨⟨[("id", { typeTag := "String", isId := true })], by decide⟩⟩)], by decide⟩
      enums := Table.empty }
  synonyms := Synonyms.empty
  allow := AllowList.ofPaths ["items.some.name"]

/-- The name of an order is looked up on products. -/
theorem no_name_orders :
    QuantifiedRelation orders "items" "some" "user" "" { typeTag := "order", isList := true }
        "order" ∧
      quantifiedPath "items" "some" "" = "items.some" ∧
      rangedOver orders "items" "order" "" = "product" ∧
      synthesize orders none ["items", "some", "name"] none "user" "" = .ok none ∧
      (synthesize orders none ["name"] none "order" "items.some").map
        (Option.map (quantifiedTree "items" "some")) =
          .ok (some (.single "items" (.single "some" (.single "name" (.leaf .string))))) := by
  refine ⟨?_, by decide +kernel, by decide +kernel, by rfl, by rfl⟩
  exact {
    plain := by decide +kernel
    found := by decide +kernel
    related := by decide +kernel
    resolved := by decide +kernel
    quantifies := by decide +kernel
    free := by decide +kernel
    entered := by decide +kernel
    allowed := by decide +kernel }

end ScopedSchema
