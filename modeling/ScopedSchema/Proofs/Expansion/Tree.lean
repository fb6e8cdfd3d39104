import ScopedSchema.Proofs.Expansion
import ScopedSchema.Proofs.Table
import ScopedSchema.Proofs.Tree.Merge
import ScopedSchema.Proofs.Zod.Expr
import ScopedSchema.Tree.Render

/-!
# Expansions as trees

The text of an expansion is that of a tree whose objects are models and whose leaves are everything
else. Only models that are new on the trail are expanded, so an expansion goes no deeper than there
are registered models outside of the trail.
-/

namespace ScopedSchema

namespace Context

/-- The name that a type tag is expanded under. A tag that means no model stands for itself. -/
def targetOf (context : Context) (tag : String) : String := (context.resolveModel? tag).getD tag

/-- The allowed fields of a model at a path, in the order of the model. -/
def fieldsBelow (context : Context) (model : Model) (path : String) : List (String × Field) :=
  model.fields.entries.filter fun entry => context.isAllowed (Path.child path entry.1)

/-- A field at its place, around what its type is expanded to. -/
def fieldTree (context : Context) (field : Field) (target : Tree) : Tree :=
  let value :=
    if context.isLeafType field.typeTag then .leaf (context.registry.leafExpr field.typeTag)
    else target
  if field.isOptional then .optional value else value

end Context

/-- An expansion that is not printed yet: models are objects, everything else is a leaf. -/
def expansion (context : Context) (name path : String) (trail : Trail) : Tree :=
  if _ : trail.contains name then .leaf .any
  else
    match _ : context.registry.model? name with
    | none => .leaf .any
    | some model =>
      .object ((context.fieldsBelow model path).map fun entry =>
        (entry.1, context.fieldTree entry.2
          (expansion context (context.targetOf entry.2.typeTag) (Path.child path entry.1)
            (name :: trail))))
termination_by Trail.unvisited context.registry.models.names trail
decreasing_by
  rename_i fresh found
  exact Trail.unvisited_cons_lt (Table.mem_names_of_find? found) (by simpa using fresh)

variable {context : Context} {name path : String} {trail : Trail} {model : Model}

/-! ## Equations -/

theorem mem_fieldsBelow_iff {key : String} {field : Field} :
    (key, field) ∈ context.fieldsBelow model path ↔
      model.field? key = some field ∧ context.isAllowed (Path.child path key) = true := by
  rw [Context.fieldsBelow, List.mem_filter, Model.field?, Table.find?,
    lookup_eq_some_iff_of_nodup model.fields.names_nodup]

theorem names_fieldsBelow (model : Model) (path : String) :
    (context.fieldsBelow model path).map Prod.fst =
      model.fields.names.filter fun key => context.isAllowed (Path.child path key) := by
  rw [Context.fieldsBelow, Table.names, List.filter_map]
  rfl

theorem expansion_of_visited (visited : trail.contains name = true) :
    expansion context name path trail = .leaf .any := by
  rw [expansion, dif_pos visited]

theorem expansion_of_unregistered (absent : context.registry.model? name = none) :
    expansion context name path trail = .leaf .any := by
  rw [expansion]
  split
  · rfl
  · split
    · rfl
    · rename_i found
      rw [absent] at found
      cases found

/-- What a tag that means no model is expanded to. -/
theorem expansion_of_unresolved {tag : String} (unresolved : context.resolveModel? tag = none) :
    expansion context (context.targetOf tag) path trail = .leaf .any := by
  apply expansion_of_unregistered
  have absent := Context.hasModel_eq_false_of_resolveModel? unresolved
  rw [Context.targetOf, unresolved, Option.getD_none]
  simpa [Registry.hasModel, Registry.model?, Table.contains] using absent

theorem expansion_of_registered (fresh : ¬ trail.contains name = true)
    (found : context.registry.model? name = some model) :
    expansion context name path trail =
      .object ((context.fieldsBelow model path).map fun entry =>
        (entry.1, context.fieldTree entry.2
          (expansion context (context.targetOf entry.2.typeTag) (Path.child path entry.1)
            (name :: trail)))) := by
  rw [expansion, dif_neg fresh]
  split
  · rename_i absent
    rw [absent] at found
    cases found
  · rename_i other same
    rw [found] at same
    cases same
    rfl

theorem expandModel_eq_object (fresh : ¬ trail.contains name = true)
    (found : context.registry.model? name = some model) :
    expandModel context name path trail =
      .object ((context.fieldsBelow model path).map fun entry =>
        let expr :=
          if context.isLeafType entry.2.typeTag then context.registry.leafExpr entry.2.typeTag
          else
            expandModel context (context.targetOf entry.2.typeTag) (Path.child path entry.1)
              (name :: trail)
        (entry.1, if entry.2.isOptional then expr.nullish else expr)) := by
  rw [expandModel_of_registered context fresh found, Context.fieldsBelow, ← List.filterMap_eq_map,
    List.filterMap_filter]
  rfl

theorem core_fieldTree (field : Field) (target : Tree) :
    (context.fieldTree field target).core =
      if context.isLeafType field.typeTag then .leaf (context.registry.leafExpr field.typeTag)
      else target.core := by
  unfold Context.fieldTree
  by_cases leaf : context.isLeafType field.typeTag = true <;>
    by_cases nullable : field.isOptional = true <;> simp [leaf, nullable, Tree.core]

/-- Only a registered model that is new on the trail is expanded to an object. -/
theorem expansion_cases (context : Context) (name path : String) (trail : Trail) :
    expansion context name path trail = .leaf .any ∨
      name ∉ trail ∧ ∃ model, context.registry.model? name = some model ∧
        expansion context name path trail =
          .object ((context.fieldsBelow model path).map fun entry =>
            (entry.1, context.fieldTree entry.2
              (expansion context (context.targetOf entry.2.typeTag) (Path.child path entry.1)
                (name :: trail)))) := by
  by_cases visited : trail.contains name = true
  · exact Or.inl (expansion_of_visited visited)
  · cases registered : context.registry.model? name with
    | none => exact Or.inl (expansion_of_unregistered registered)
    | some model =>
        exact Or.inr ⟨by simpa using visited, model, rfl, expansion_of_registered visited registered⟩

theorem expr_of_expansion_core_leaf {expr : Expr}
    (leaf : (expansion context name path trail).core = .leaf expr) : expr = .any := by
  rcases expansion_cases context name path trail with any | ⟨_, model, _, object⟩
  · simpa [any, Tree.core] using leaf.symm
  · simp [object, Tree.core] at leaf

/-- A field is an object if its type means a registered model that is new on the trail. -/
theorem object_of_fieldTree {field : Field} {members : List (String × Tree)}
    (object : (context.fieldTree field
      (expansion context (context.targetOf field.typeTag) path trail)).core = .object members) :
    ∃ target model, context.isLeafType field.typeTag = false ∧
      context.resolveModel? field.typeTag = some target ∧ target ∉ trail ∧
      context.registry.model? target = some model ∧
      members.map Prod.fst = model.fields.names.filter fun key =>
        context.isAllowed (Path.child path key) := by
  rw [core_fieldTree] at object
  by_cases leaf : context.isLeafType field.typeTag = true
  · simp [leaf] at object
  rw [if_neg leaf] at object
  cases resolved : context.resolveModel? field.typeTag with
  | none => simp [expansion_of_unresolved resolved, Tree.core] at object
  | some target =>
      rw [Context.targetOf, resolved, Option.getD_some] at object
      rcases expansion_cases context target path trail with any | ⟨new, model, registered, same⟩
      · simp [any, Tree.core] at object
      · rw [same] at object
        refine ⟨target, model, by simpa using leaf, rfl, new, registered, ?_⟩
        rw [← Tree.object.inj object, List.map_map, ← names_fieldsBelow]
        rfl

/-! ## Printing -/

theorem render_fieldTree (field : Field) (target : Tree) :
    (context.fieldTree field target).render =
      let expr :=
        if context.isLeafType field.typeTag then context.registry.leafExpr field.typeTag
        else target.render
      if field.isOptional then expr.nullish else expr := by
  unfold Context.fieldTree
  by_cases leaf : context.isLeafType field.typeTag = true <;>
    by_cases nullable : field.isOptional = true <;>
      simp [leaf, nullable, Tree.render_optional]

theorem render_expansion (context : Context) (name path : String) (trail : Trail) :
    (expansion context name path trail).render = expandModel context name path trail := by
  induction name, path, trail using expansion.induct context with
  | case1 name path trail visited =>
      rw [expansion_of_visited visited, expandModel_of_visited context visited, Tree.render_leaf]
  | case2 name path trail fresh absent =>
      rw [expansion_of_unregistered absent, expandModel_of_unregistered context fresh absent,
        Tree.render_leaf]
  | case3 name path trail fresh model found induction =>
      rw [expansion_of_registered fresh found, expandModel_eq_object fresh found,
        Tree.render_object, List.map_map]
      congr 2
      funext entry
      simp only [Function.comp_apply, render_fieldTree, induction entry]

theorem isNullish_expandModel : (expandModel context name path trail).isNullish = false := by
  rw [← render_expansion]
  rcases expansion_cases context name path trail with any | ⟨_, model, _, object⟩
  · rw [any, Tree.render_leaf, Expr.isNullish_any]
  · rw [object, Tree.render_object, Expr.isNullish_object]

/-- Nothing inside of a field is nullable on its own account. -/
theorem isNullish_render_fieldTree (field : Field) (target : String) :
    (context.fieldTree field (expansion context target path trail)).render.isNullish =
      field.isOptional := by
  rw [render_fieldTree, render_expansion]
  have plain : (if context.isLeafType field.typeTag then context.registry.leafExpr field.typeTag
      else expandModel context target path trail).isNullish = false := by
    split
    · exact Registry.isNullish_leafExpr _ _
    · exact isNullish_expandModel
  cases field.isOptional with
  | true => exact Expr.isNullish_nullish _
  | false => exact plain

/-! ## Depth -/

/-- An expansion over so many models on top of each other, if no more are needed. -/
def expandWithin (context : Context) : Nat → String → String → Trail → Option Expr
  | 0, _, _, _ => none
  | depth + 1, name, path, trail =>
    if trail.contains name then some .any
    else
      match context.registry.model? name with
      | none => some .any
      | some model =>
        ((context.fieldsBelow model path).mapM fun entry =>
          (if context.isLeafType entry.2.typeTag then
            some (context.registry.leafExpr entry.2.typeTag)
          else
            expandWithin context depth (context.targetOf entry.2.typeTag)
              (Path.child path entry.1) (name :: trail)).map fun expr =>
            (entry.1, if entry.2.isOptional then expr.nullish else expr)).map Expr.object

theorem mapM_eq_some_map {α β : Type} {run : α → Option β} {result : α → β} {inputs : List α}
    (each : ∀ input, run input = some (result input)) :
    inputs.mapM run = some (inputs.map result) := by
  rw [funext each]
  exact List.mapM_pure

/-- A trail grows by registered models only, so what is left of them bounds the depth. -/
theorem expandWithin_of_unvisited_lt {depth : Nat}
    (enough : Trail.unvisited context.registry.models.names trail < depth) :
    expandWithin context depth name path trail = some (expandModel context name path trail) := by
  induction depth generalizing name path trail with
  | zero => exact absurd enough (Nat.not_lt_zero _)
  | succ depth induction =>
      rw [expandWithin]
      by_cases visited : trail.contains name = true
      · rw [if_pos visited, expandModel_of_visited context visited]
      · rw [if_neg visited]
        cases found : context.registry.model? name with
        | none => rw [expandModel_of_unregistered context visited found]
        | some model =>
            have grown := Trail.unvisited_cons_lt (Table.mem_names_of_find? found)
              (Bool.eq_false_iff.mpr visited)
            have deeper : ∀ target below, expandWithin context depth target below (name :: trail) =
                some (expandModel context target below (name :: trail)) := by
              intro target below
              exact induction (by omega)
            rw [expandModel_eq_object visited found]
            simp only [deeper]
            rw [mapM_eq_some_map, Option.map_some]
            intro entry
            cases context.isLeafType entry.2.typeTag <;> rfl

end ScopedSchema
