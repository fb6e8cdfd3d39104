import ScopedSchema.Proofs.Expansion.Tree
import ScopedSchema.Proofs.Tree.KeyPath

/-!
# What an expansion covers

An expansion is followed along its fields. A field is entered if its type is no leaf type and means
a registered model; the keys of the expansion are the allowed paths over entered fields that meet no
model twice.
-/

namespace ScopedSchema

namespace Context

/-- The model that a field leads into. -/
def entered? (context : Context) (name key : String) : Option String :=
  (context.registry.field? name key).bind fun field =>
    if context.isLeafType field.typeTag then none else context.resolveModel? field.typeTag

/-- The models that the fields of these names lead into, one after another. -/
def enteredAlong? (context : Context) : String → List String → Option (List String)
  | _, [] => some []
  | name, key :: keys =>
    (context.entered? name key).bind fun target =>
      (context.enteredAlong? target keys).map fun models => target :: models

/-- Every place over these keys is allowed. -/
def AllowsAlong (context : Context) (path : String) (keys : List String) : Prop :=
  ∀ above, above ≠ [] → above <+: keys → context.isAllowed (above.foldl Path.child path) = true

/-- The fields `front` lead from one model into the next, `models` in all, and the last of these has
the field `last`. No model is met twice, and none that is on the trail. -/
structure Route (context : Context) (name : String) (trail : Trail) (front : List String)
    (last : String) (models : List String) (field : Field) : Prop where
  entered : context.enteredAlong? name front = some models
  found : context.registry.field? (models.getLastD name) last = some field
  distinct : (name :: models).Nodup
  fresh : ∀ met ∈ models, met ∉ trail

end Context

variable {context : Context} {name path : String} {trail : Trail}

/-! ## Routes -/

theorem allowsAlong_nil : context.AllowsAlong path [] := by
  intro above nonempty before
  exact absurd (List.prefix_nil.mp before) nonempty

theorem allowsAlong_cons {key : String} {keys : List String} :
    context.AllowsAlong path (key :: keys) ↔
      context.isAllowed (Path.child path key) = true ∧
        context.AllowsAlong (Path.child path key) keys := by
  constructor
  · intro allows
    refine ⟨allows [key] (by simp) (by simp), ?_⟩
    intro above _ before
    exact allows (key :: above) (by simp) (List.cons_prefix_cons.mpr ⟨rfl, before⟩)
  · rintro ⟨here, later⟩ above nonempty before
    rcases List.prefix_cons_iff.mp before with empty | ⟨rest, rfl, shorter⟩
    · exact absurd empty nonempty
    · rcases eq_or_ne rest [] with rfl | more
      · exact here
      · exact later rest more shorter

theorem enteredAlong?_cons_iff {key : String} {keys models : List String} :
    context.enteredAlong? name (key :: keys) = some models ↔
      ∃ target deeper, context.entered? name key = some target ∧
        context.enteredAlong? target keys = some deeper ∧ models = target :: deeper := by
  simp only [Context.enteredAlong?, Option.bind_eq_some_iff, Option.map_eq_some_iff]
  constructor
  · rintro ⟨target, entered, deeper, along, rfl⟩
    exact ⟨target, deeper, entered, along, rfl⟩
  · rintro ⟨target, deeper, entered, along, rfl⟩
    exact ⟨target, entered, deeper, along, rfl⟩

theorem enteredAlong?_concat {keys models : List String} {last target : String}
    (along : context.enteredAlong? name keys = some models)
    (entered : context.entered? (models.getLastD name) last = some target) :
    context.enteredAlong? name (keys ++ [last]) = some (models ++ [target]) := by
  induction keys generalizing name models with
  | nil =>
      have none : models = [] := by simpa [Context.enteredAlong?] using along.symm
      subst none
      exact enteredAlong?_cons_iff.mpr ⟨target, [], entered, rfl, rfl⟩
  | cons key keys induction =>
      obtain ⟨next, deeper, first, later, rfl⟩ := enteredAlong?_cons_iff.mp along
      rw [List.getLastD_cons] at entered
      exact enteredAlong?_cons_iff.mpr ⟨next, _, first, induction later entered, rfl⟩

theorem route_nil_iff {last : String} {models : List String} {field : Field} :
    context.Route name trail [] last models field ↔
      models = [] ∧ context.registry.field? name last = some field := by
  constructor
  · intro route
    have none : models = [] := by simpa [Context.enteredAlong?] using route.entered.symm
    subst none
    exact ⟨rfl, route.found⟩
  · rintro ⟨rfl, found⟩
    exact ⟨rfl, found, by simp, by simp⟩

/-- Behind its first key, a route is a route from the model entered, which was new. -/
theorem route_cons_iff {key last : String} {rest models : List String} {field : Field} :
    context.Route name trail (key :: rest) last models field ↔
      ∃ target deeper, context.entered? name key = some target ∧ models = target :: deeper ∧
        target ∉ name :: trail ∧ context.Route target (name :: trail) rest last deeper field := by
  constructor
  · intro route
    obtain ⟨target, deeper, entered, along, rfl⟩ := enteredAlong?_cons_iff.mp route.entered
    obtain ⟨apart, distinct⟩ := List.nodup_cons.mp route.distinct
    have found := route.found
    rw [List.getLastD_cons] at found
    have outside : ∀ met ∈ target :: deeper, met ∉ name :: trail := by
      intro met inside again
      rcases List.mem_cons.mp again with rfl | visited
      · exact apart inside
      · exact route.fresh met inside visited
    exact ⟨target, deeper, entered, rfl, outside target List.mem_cons_self, along, found, distinct,
      fun met inside => outside met (List.mem_cons_of_mem _ inside)⟩
  · rintro ⟨target, deeper, entered, rfl, new, route⟩
    have outside : ∀ met ∈ target :: deeper, met ∉ name :: trail := by
      intro met inside
      rcases List.mem_cons.mp inside with rfl | later
      · exact new
      · exact route.fresh met later
    refine ⟨enteredAlong?_cons_iff.mpr ⟨target, deeper, entered, route.entered, rfl⟩, ?_,
      List.nodup_cons.mpr ⟨?_, route.distinct⟩, ?_⟩
    · rw [List.getLastD_cons]
      exact route.found
    · exact fun inside => outside name inside List.mem_cons_self
    · exact fun met inside visited => outside met inside (List.mem_cons_of_mem _ visited)

/-- A route goes on into a model that is new behind it. -/
theorem route_extended {front models : List String} {last target : String} {field : Field}
    (route : context.Route name trail front last models field)
    (entered : context.entered? (models.getLastD name) last = some target)
    (new : target ∉ models.reverse ++ name :: trail) :
    context.enteredAlong? name (front ++ [last]) = some (models ++ [target]) ∧
      (name :: (models ++ [target])).Nodup ∧ ∀ met ∈ models ++ [target], met ∉ trail := by
  simp only [List.mem_append, List.mem_reverse, List.mem_cons, not_or] at new
  obtain ⟨unmet, other, outside⟩ := new
  refine ⟨enteredAlong?_concat route.entered entered, ?_, ?_⟩
  · have unmet' : target ∉ name :: models := by simp [other, unmet]
    rw [← List.cons_append]
    exact List.nodup_append_comm.mp (List.nodup_cons.mpr ⟨unmet', route.distinct⟩)
  · intro met inside
    rcases List.mem_append.mp inside with earlier | last
    · exact route.fresh met earlier
    · rw [List.mem_singleton.mp last]
      exact outside

/-! ## Nodes -/

theorem nodeAt_fieldTree_iff {field : Field} {target node : Tree} {keys : List String} :
    (context.fieldTree field target).NodeAt keys node ↔
      context.isLeafType field.typeTag = false ∧ target.NodeAt keys node := by
  rw [← Tree.nodeAt_core, core_fieldTree]
  by_cases leaf : context.isLeafType field.typeTag = true
  · simp [leaf]
  · simp [leaf, Tree.nodeAt_core]

/-- One key: the trail does not stop the model, and the key names an allowed field of it. -/
theorem nodeAt_expansion_cons {key : String} {keys : List String} {node : Tree} :
    (expansion context name path trail).NodeAt (key :: keys) node ↔
      name ∉ trail ∧ ∃ field, context.registry.field? name key = some field ∧
        context.isAllowed (Path.child path key) = true ∧
        ∃ value, value = context.fieldTree field (expansion context
            (context.targetOf field.typeTag) (Path.child path key) (name :: trail)) ∧
          ((keys = [] ∧ node = value) ∨ value.NodeAt keys node) := by
  by_cases visited : trail.contains name = true
  · have inside : name ∈ trail := by simpa using visited
    simp [expansion_of_visited visited, inside]
  · have outside : name ∉ trail := by simpa using visited
    cases registered : context.registry.model? name with
    | none => simp [expansion_of_unregistered registered, Registry.field?, registered]
    | some model =>
        have names (field : Field) : context.registry.field? name key = some field ↔
            model.field? key = some field := by
          rw [Registry.field?, registered, Option.bind_some]
        simp only [names]
        rw [expansion_of_registered visited registered, Tree.nodeAt_object_iff]
        constructor
        · rintro ⟨value, member, stands⟩
          obtain ⟨⟨other, field⟩, inside, same⟩ := List.mem_map.mp member
          simp only [Prod.mk.injEq] at same
          obtain ⟨rfl, rfl⟩ := same
          obtain ⟨found, allowed⟩ := mem_fieldsBelow_iff.mp inside
          exact ⟨outside, field, found, allowed, _, rfl, stands⟩
        · rintro ⟨_, field, found, allowed, value, rfl, stands⟩
          exact ⟨_, List.mem_map.mpr ⟨(key, field), mem_fieldsBelow_iff.mpr ⟨found, allowed⟩, rfl⟩,
            stands⟩

/-- A key with others behind it names a field that leads into a model. -/
theorem nodeAt_expansion_deeper {key last : String} {rest : List String} {node : Tree} :
    (expansion context name path trail).NodeAt (key :: (rest ++ [last])) node ↔
      name ∉ trail ∧ ∃ target, context.entered? name key = some target ∧
        context.isAllowed (Path.child path key) = true ∧
        (expansion context target (Path.child path key) (name :: trail)).NodeAt
          (rest ++ [last]) node := by
  rw [nodeAt_expansion_cons]
  apply and_congr_right
  intro _
  constructor
  · rintro ⟨field, found, allowed, value, rfl, ⟨empty, _⟩ | deeper⟩
    · simp at empty
    · obtain ⟨branch, deeper⟩ := nodeAt_fieldTree_iff.mp deeper
      cases resolved : context.resolveModel? field.typeTag with
      | none => simp [expansion_of_unresolved resolved] at deeper
      | some target =>
          rw [Context.targetOf, resolved, Option.getD_some] at deeper
          exact ⟨target, by simp [Context.entered?, found, branch, resolved], allowed, deeper⟩
  · rintro ⟨target, entered, allowed, deeper⟩
    obtain ⟨field, found, leads⟩ := Option.bind_eq_some_iff.mp entered
    by_cases leaf : context.isLeafType field.typeTag = true
    · simp [leaf] at leads
    · rw [if_neg leaf] at leads
      refine ⟨field, found, allowed, _, rfl, Or.inr (nodeAt_fieldTree_iff.mpr ?_)⟩
      rw [Context.targetOf, leads, Option.getD_some]
      exact ⟨by simpa using leaf, deeper⟩

/-- Every node of an expansion stands at the end of an allowed route, and is what the expansion of
its field gives there. The models met on the way are then on the trail. -/
theorem nodeAt_expansion_iff {front : List String} {last : String} {node : Tree} :
    (expansion context name path trail).NodeAt (front ++ [last]) node ↔
      name ∉ trail ∧ ∃ models field, context.Route name trail front last models field ∧
        context.AllowsAlong path (front ++ [last]) ∧
        node = context.fieldTree field (expansion context (context.targetOf field.typeTag)
          ((front ++ [last]).foldl Path.child path) (models.reverse ++ name :: trail)) := by
  induction front generalizing name path trail with
  | nil =>
      rw [List.nil_append, nodeAt_expansion_cons]
      apply and_congr_right
      intro _
      simp only [route_nil_iff, allowsAlong_cons, allowsAlong_nil, and_true]
      constructor
      · rintro ⟨field, found, allowed, value, rfl, ⟨_, rfl⟩ | deeper⟩
        · exact ⟨[], field, ⟨rfl, found⟩, allowed, rfl⟩
        · exact absurd deeper (Tree.not_nodeAt_nil _ _)
      · rintro ⟨_, field, ⟨rfl, found⟩, allowed, rfl⟩
        exact ⟨field, found, allowed, _, rfl, Or.inl ⟨trivial, rfl⟩⟩
  | cons key rest induction =>
      rw [List.cons_append, nodeAt_expansion_deeper]
      apply and_congr_right
      intro _
      simp only [induction, route_cons_iff, allowsAlong_cons]
      constructor
      · rintro ⟨target, entered, allowed, new, deeper, field, route, allows, rfl⟩
        refine ⟨target :: deeper, field, ⟨target, deeper, entered, rfl, new, route⟩,
          ⟨allowed, allows⟩, ?_⟩
        simp
      · rintro ⟨_, field, ⟨target, deeper, entered, rfl, new, route⟩, ⟨allowed, allows⟩, rfl⟩
        refine ⟨target, entered, allowed, new, deeper, field, route, allows, ?_⟩
        simp

theorem keyPath_expansion_iff (outside : name ∉ trail) {front : List String} {last : String} :
    (expansion context name path trail).KeyPath (front ++ [last]) ↔
      (∃ models field, context.Route name trail front last models field) ∧
        context.AllowsAlong path (front ++ [last]) := by
  unfold Tree.KeyPath
  simp only [nodeAt_expansion_iff]
  constructor
  · rintro ⟨_, _, models, field, route, allows, _⟩
    exact ⟨⟨models, field, route⟩, allows⟩
  · rintro ⟨⟨models, field, route⟩, allows⟩
    exact ⟨_, outside, models, field, route, allows, rfl⟩

/-- An object below an expansion is an expansion of its own, of a model not met before. -/
theorem object_of_nodeAt_expansion {keys : List String} {node : Tree}
    {members : List (String × Tree)} (stands : (expansion context name path trail).NodeAt keys node)
    (object : node.core = .object members) :
    ∃ models model, context.enteredAlong? name keys = some models ∧ (name :: models).Nodup ∧
      (∀ met ∈ models, met ∉ trail) ∧
      context.registry.model? (models.getLastD name) = some model ∧
      members.map Prod.fst = model.fields.names.filter fun key =>
        context.isAllowed (Path.child (keys.foldl Path.child path) key) := by
  obtain rfl | ⟨front, last, rfl⟩ := keys.eq_nil_or_concat'
  · exact absurd stands (Tree.not_nodeAt_nil _ _)
  · obtain ⟨_, models, field, route, _, rfl⟩ := nodeAt_expansion_iff.mp stands
    obtain ⟨target, model, branch, resolved, new, registered, names⟩ := object_of_fieldTree object
    have entered : context.entered? (models.getLastD name) last = some target := by
      rw [Context.entered?, route.found, Option.bind_some, branch, if_neg Bool.false_ne_true]
      exact resolved
    obtain ⟨along, distinct, fresh⟩ := route_extended route entered new
    refine ⟨models ++ [target], model, along, distinct, fresh, ?_, names⟩
    rw [List.getLastD_concat]
    exact registered

theorem field_of_nodeAt_expansion {front : List String} {last : String} {node : Tree}
    (stands : (expansion context name path trail).NodeAt (front ++ [last]) node) :
    ∃ models field, context.Route name trail front last models field ∧
      node.render.isNullish = field.isOptional ∧
      ∀ expr, node.core = .leaf expr →
        expr = if context.isLeafType field.typeTag then context.registry.leafExpr field.typeTag
          else .any := by
  obtain ⟨_, models, field, route, _, rfl⟩ := nodeAt_expansion_iff.mp stands
  refine ⟨models, field, route, isNullish_render_fieldTree field _, ?_⟩
  intro expr leaf
  rw [core_fieldTree] at leaf
  split at leaf
  · rename_i ends
    rw [if_pos ends]
    exact (Tree.leaf.inj leaf).symm
  · rename_i leads
    rw [if_neg leads]
    exact expr_of_expansion_core_leaf leaf

/-! ## Expansions of registered models -/

/-- What the expansion of a model amounts to. -/
structure ExactExpansion (context : Context) (name path : String) (trail : Trail) (model : Model) :
    Prop where
  /-- One level for every registered model outside of the trail is deep enough. -/
  ends : ∀ depth, Trail.unvisited context.registry.models.names trail < depth →
    expandWithin context depth name path trail = some (expandModel context name path trail)
  printed : (expansion context name path trail).render = expandModel context name path trail
  keys : ∀ front last, (expansion context name path trail).KeyPath (front ++ [last]) ↔
    (∃ models field, context.Route name trail front last models field) ∧
      context.AllowsAlong path (front ++ [last])
  /-- The allowed fields of the model, in its order. -/
  root : ∃ members, expansion context name path trail = .object members ∧
    members.map Prod.fst = model.fields.names.filter fun key =>
      context.isAllowed (Path.child path key)
  /-- Below, too; and no model stands inside of an expansion of itself. -/
  objects : ∀ keys node members, (expansion context name path trail).NodeAt keys node →
    node.core = .object members →
      ∃ models inner, context.enteredAlong? name keys = some models ∧ (name :: models).Nodup ∧
        (∀ met ∈ models, met ∉ trail) ∧
        context.registry.model? (models.getLastD name) = some inner ∧
        members.map Prod.fst = inner.fields.names.filter fun key =>
          context.isAllowed (Path.child (keys.foldl Path.child path) key)
  fields : ∀ front last node, (expansion context name path trail).NodeAt (front ++ [last]) node →
    ∃ models field, context.Route name trail front last models field ∧
      node.render.isNullish = field.isOptional ∧
      ∀ expr, node.core = .leaf expr →
        expr = if context.isLeafType field.typeTag then context.registry.leafExpr field.typeTag
          else .any

theorem expansion_exact (context : Context) (path : String) {name : String} {trail : Trail}
    {model : Model} (registered : context.registry.model? name = some model)
    (outside : name ∉ trail) : ExactExpansion context name path trail model where
  ends := fun _ enough => expandWithin_of_unvisited_lt enough
  printed := render_expansion context name path trail
  keys := fun _ _ => keyPath_expansion_iff outside
  root := by
    refine ⟨_, expansion_of_registered (by simpa using outside) registered, ?_⟩
    rw [List.map_map, ← names_fieldsBelow]
    rfl
  objects := fun _ _ _ => object_of_nodeAt_expansion
  fields := fun _ _ _ => field_of_nodeAt_expansion

def profileOwner : Model :=
  ⟨⟨[
    ("name", { typeTag := "String" }),
    ("profile", { typeTag := "profile", isOptional := true })], by decide⟩⟩

/-- A user has a profile, which belongs to a user. -/
def profiles : Context where
  registry :=
    { models := ⟨[
        ("user", profileOwner),
        ("profile", ⟨⟨[
          ("bio", { typeTag := "String", isOptional := true }),
          ("user", { typeTag := "user" })], by decide⟩⟩)], by decide⟩
      enums := Table.empty }
  synonyms := Synonyms.empty
  allow := AllowList.ofPaths ["data.profile.user.name", "data.name", "data.profile.bio"]

/-- The way back to the user is printed as a key, but nothing is printed below it. -/
theorem expansion_exact_profiles :
    profiles.registry.model? "user" = some profileOwner ∧ "user" ∉ ([] : Trail) ∧
      ExactExpansion profiles "user" "data" [] profileOwner ∧
      expandModel profiles "user" "data" [] =
        ⟨"z.object(\x7b name: z.string(), profile: " ++
          "z.object(\x7b bio: z.string().nullish(), user: z.any() \x7d).nullish() \x7d)"⟩ ∧
      (expansion profiles "user" "data" []).KeyPath ["profile", "user"] ∧
      ¬ (expansion profiles "user" "data" []).KeyPath ["profile", "user", "name"] := by
  have registered : profiles.registry.model? "user" = some profileOwner := by decide +kernel
  have outside : "user" ∉ ([] : Trail) := by decide
  have exact := expansion_exact profiles "data" registered outside
  refine ⟨registered, outside, exact, ?_, ?_, ?_⟩
  · have deep : Trail.unvisited profiles.registry.models.names [] < 3 := by decide +kernel
    apply Option.some.inj
    rw [← exact.ends 3 deep]
    decide +kernel
  · apply (exact.keys ["profile"] "user").mpr
    refine ⟨⟨["profile"], { typeTag := "user" }, ?_⟩, ?_⟩
    · exact {
        entered := by decide +kernel
        found := by decide +kernel
        distinct := by decide
        fresh := by decide }
    · simp only [List.cons_append, List.nil_append, allowsAlong_cons, allowsAlong_nil, and_true]
      decide +kernel
  · intro path
    obtain ⟨⟨models, field, route⟩, _⟩ := (exact.keys ["profile", "user"] "name").mp path
    have back : profiles.enteredAlong? "user" ["profile", "user"] = some ["profile", "user"] := by
      decide +kernel
    rw [route.entered] at back
    have distinct := route.distinct
    rw [Option.some.inj back] at distinct
    exact absurd distinct (by decide)

end ScopedSchema
