import ScopedSchema.Proofs.Synthesis.Fruitless
import ScopedSchema.Proofs.Synthesis.Retention
import ScopedSchema.Proofs.Tree.Alike

/-!
# An entry for a relation and the entries beneath it

An entry that ends at a relation, a container, takes in the entries beneath it, which are listed
themselves as well. So they are walked twice: from the root, and from the relation on, where only
operators that need the field before them find less. The container holds nothing that the other
entries do not hold, and merged among them it changes the order of keys at most.
-/

namespace ScopedSchema

namespace Synthesis

open Outcome ScopedSchema.Tree

/-- The relation field at the end of some segments, as a walk reaches it that no write operation
stops on its way. -/
def relationAt? (context : Context) :
    List String → Option String → String → String → Option Field
  | [], _, _, _ => none
  | segment :: rest, previous, model, path =>
    let key := Path.keyOf segment
    let here := Path.child path key
    let scope := scopeAt context model path
    match Operator.ofKey? key with
    | some .logical => relationAt? context rest none scope here
    | some .quantifier => relationAt? context rest none (quantified context scope previous) here
    | some _ => none
    | none =>
      if rest.isEmpty then
        (context.registry.field? scope key).filter fun field =>
          !context.isLeafType field.typeTag
      else
        (followed? context scope key).bind fun next =>
          relationAt? context rest (some segment) next here

/-- The segments of an entry behind those of the container. -/
def beyond (container entry : String) : List String :=
  (Path.segments entry).drop (Path.segments container).length

/-- The entry goes on behind the container, and not with a quantifier. -/
def Beneath (container entry : String) : Prop :=
  ∃ key rest, Path.segments entry = Path.segments container ++ key :: rest ∧
    Operator.ofKey? key ≠ some .quantifier

/-- The allow list consists of a container and of entries beneath it. -/
structure Contains (context : Context) (container : String) (before after : List String) :
    Prop where
  listed : context.allow = .ofPaths (before ++ container :: after)
  plain : Path.Plain container
  beneath : ∀ entry ∈ before ++ after, Path.Plain entry ∧ Beneath container entry

theorem beyond_self (container : String) : beyond container container = [] := List.drop_length

theorem beyond_of_split {container entry : String} {rest : List String}
    (split : Path.segments entry = Path.segments container ++ rest) :
    beyond container entry = rest := by
  rw [beyond, split, List.drop_left]

theorem relationAt?_withAllow {context : Context} (allow : AllowList) (segments : List String)
    (previous : Option String) (model path : String) :
    relationAt? (context.withAllow allow) segments previous model path =
      relationAt? context segments previous model path := by
  induction segments generalizing previous model path with
  | nil => rw [relationAt?, relationAt?]
  | cons segment rest induction =>
      rw [relationAt?, relationAt?]
      simp only [induction]
      rfl

/-! ## Allow lists with a container -/

namespace Contains

variable {context : Context} {container : String} {before after : List String}
  (contains : Contains context container before after)

include contains

theorem segments_entry {entry : String} (member : entry ∈ before ++ container :: after) :
    Path.segments entry = Path.segments container ++ beyond container entry := by
  rcases List.mem_append.mp member with early | late
  · obtain ⟨_, key, rest, split, _⟩ := contains.beneath entry (List.mem_append_left _ early)
    rw [beyond_of_split split, split]
  · rcases List.mem_cons.mp late with same | late
    · rw [same, beyond_self, List.append_nil]
    · obtain ⟨_, key, rest, split, _⟩ := contains.beneath entry (List.mem_append_right _ late)
      rw [beyond_of_split split, split]

/-- All entries go through the container. -/
theorem through {entry : AllowEntry} (member : entry ∈ context.allow.entries) :
    Path.segments container <+: entry.keys := by
  rw [contains.listed] at member
  obtain ⟨path, inside, same⟩ := List.mem_map.mp member
  have split : entry.keys = Path.keys container ++ (beyond container path).map Path.keyOf := by
    rw [← same, Path.keys, ← List.map_append, ← contains.segments_entry inside]
    rfl
  rw [split, contains.plain.keys_eq]
  exact List.prefix_append _ _

theorem isAllowed {path : String} (begins : Path.keys path <+: Path.segments container) :
    context.isAllowed path = true := by
  apply AllowList.isAllowed_iff.mpr
  refine ⟨.bare container, ?_, ?_⟩
  · rw [contains.listed]
    exact List.mem_map_of_mem (List.mem_append_right _ List.mem_cons_self)
  · rw [← contains.plain.keys_eq] at begins
    exact begins

/-- Below the container stand the other entries, in their order. -/
theorem descendants_eq {path : String} (inside : Path.segments container <+: Path.keys path) :
    context.allow.descendants path = (AllowList.ofPaths (before ++ after)).descendants path := by
  have beyond : (AllowEntry.bare container).isBelow (Path.keys path) = false := by
    by_contra below
    obtain ⟨key, rest, goes⟩ := AllowEntry.isBelow_iff.mp (Bool.of_not_eq_false below)
    have longer := congrArg List.length goes
    have shorter := inside.length_le
    have same : (AllowEntry.bare container).keys = Path.segments container := contains.plain.keys_eq
    rw [same, List.length_append, List.length_cons] at longer
    omega
  rw [contains.listed]
  simp only [AllowList.descendants, AllowList.ofPaths, List.map_append, List.map_cons,
    List.filter_append, List.filter_cons, beyond, Bool.false_eq_true, if_false]

theorem descendants_of_keys {path : String} (here : Path.keys path = Path.segments container) :
    context.allow.descendants path =
      (before ++ after).map fun entry =>
        ⟨.bare entry, beyond container entry,
          (Path.keys entry).drop (Path.segments container).length⟩ := by
  rw [contains.descendants_eq (here ▸ List.prefix_refl _), AllowList.descendants, here,
    List.filter_eq_self.mpr, AllowList.ofPaths, List.map_map]
  · rfl
  · intro entry member
    obtain ⟨path, inside, same⟩ := List.mem_map.mp member
    obtain ⟨plain, key, rest, split, _⟩ := contains.beneath path inside
    rw [← same]
    apply AllowEntry.isBelow_iff.mpr
    refine ⟨key, rest, ?_⟩
    rw [← split]
    exact plain.keys_eq

/-- A write operation allowed on the way to the container is the next step of all entries, and the
relation there takes none of them in. -/
theorem chosen_eq_nil {path key : String} {names rest : List String} (filled : path ≠ "")
    (here : Path.keys path = names) (split : Path.segments container = names ++ key :: rest)
    (stops : allowedOperations context path ≠ []) : chosen context path true = [] := by
  have next : ∀ entry ∈ context.allow.entries, names ++ [key] <+: entry.keys := by
    intro entry member
    have begins := contains.through member
    rw [split, List.append_cons] at begins
    exact (List.prefix_append _ _).trans begins
  -- The entry that allows the operation goes through the container too, so this is its next key.
  obtain ⟨operation, member⟩ := List.exists_mem_of_ne_nil _ stops
  obtain ⟨first, listed, begins⟩ := AllowList.isAllowed_iff.mp (mem_allowedOperations_iff.mp member)
  rw [Path.keys_child filled, here, RelationOperation.keys_name] at begins
  have same : names ++ [operation.name] = names ++ [key] := by
    have shorter := List.prefix_of_prefix_length_le begins (next first listed) (by simp)
    exact shorter.eq_of_length (by simp)
  have named : operation.name = key := by simpa using same
  rw [chosen, List.filter_eq_nil_iff]
  intro descendant member
  obtain ⟨listed, goes, more⟩ := AllowList.keys_of_mem_descendants member
  have begins := next _ listed
  rw [goes, here, List.prefix_append_right_inj] at begins
  obtain ⟨later, behind⟩ := begins
  rw [← behind, ← named]
  simp [RelationOperation.isName_name]

theorem not_endless (model : String) : ¬ Endless context model := by
  apply not_endless_of_named
  intro entry member rest unnamed
  have begins := contains.through member
  have some := Path.length_segments_pos container
  cases split : Path.segments container with
  | nil =>
      rw [split] at some
      exact absurd some (Nat.lt_irrefl 0)
  | cons segment others =>
      rw [split, unnamed, List.cons_prefix_cons] at begins
      have inside : segment ∈ Path.segments container := by
        rw [split]
        exact List.mem_cons_self
      exact (contains.plain segment inside).1 begins.1

end Contains

/-! ## Relations that stop a walk -/

theorem relation_withAllow_of_stops {context : Context} {allow : AllowList}
    {nested nested' : Nesting} {field : Field} {path : String}
    (agrees : ∀ path, allow.isAllowed path = context.allow.isAllowed path)
    (stops : context.resolveModel? field.typeTag = none ∨ allowedOperations context path ≠ [])
    (below : allowedOperations context path ≠ [] → ∀ target,
      nested' target path true = nested target path true) (isList : Bool) :
    relation (context.withAllow allow) nested' field isList path =
      relation context nested field isList path := by
  have resolved : (context.withAllow allow).resolveModel? field.typeTag =
      context.resolveModel? field.typeTag := rfl
  rw [relation, relation, resolved]
  cases found : context.resolveModel? field.typeTag with
  | none => rfl
  | some target =>
      have some : allowedOperations context path ≠ [] := by
        rcases stops with unresolved | some
        · rw [found] at unresolved
          cases unresolved
        · exact some
      have some' : (allowedOperations context path).isEmpty = false := by simpa using some
      simp only [allowedOperations_withAllow agrees, relationOperations?_withAllow agrees, some',
        Bool.false_eq_true, if_false, below some]

/-- A relation that does not stop the walks has a registered target and no operations below it. -/
theorem stops_or_goes_on (context : Context) (scope key path : String) :
    (∃ field, context.registry.field? scope key = some field ∧
        context.isLeafType field.typeTag = false ∧
        (context.resolveModel? field.typeTag = none ∨ allowedOperations context path ≠ [])) ∨
      ∀ field, context.registry.field? scope key = some field →
        context.isLeafType field.typeTag = false →
        allowedOperations context path = [] ∧
          ∃ target, context.resolveModel? field.typeTag = some target := by
  by_cases stopped : ∃ field, context.registry.field? scope key = some field ∧
      context.isLeafType field.typeTag = false ∧
      (context.resolveModel? field.typeTag = none ∨ allowedOperations context path ≠ [])
  · exact Or.inl stopped
  · right
    intro field found related
    constructor
    · by_contra some
      exact stopped ⟨field, found, related, Or.inr some⟩
    · apply Option.ne_none_iff_exists'.mp
      intro unresolved
      exact stopped ⟨field, found, related, Or.inl unresolved⟩

theorem descent_withAllow_of_followed {context : Context} {allow : AllowList}
    (agrees : ∀ path, allow.isAllowed path = context.allow.isAllowed path) {nested : Nesting}
    {scope key path next : String} (followed : followed? context scope key = some next)
    (free : ∀ field, context.registry.field? scope key = some field →
      context.isLeafType field.typeTag = false → allowedOperations context path = []) :
    descent (context.withAllow allow) nested scope key false path = .into next := by
  have followed' : followed? (context.withAllow allow) scope key = some next := followed
  apply descent_of_followed followed'
  intro field found related
  rw [allowedOperations_withAllow agrees]
  exact free field found related

/-! ## The way to the container -/

/-- What the container and the entries beneath it give from some place on their way. -/
def treesFrom (context : Context) (depth : Nat) (container : String) (segments : List String)
    (previous : Option String) (model path : String) (entries : List String) : List Tree :=
  entries.filterMap fun entry =>
    found? (walk context (nestedWithin context depth) none (segments ++ beyond container entry)
      previous model path)

theorem treesFrom_eq_map {context : Context} {depth : Nat} {container : String}
    {segments rest : List String} {previous previous' : Option String}
    {model model' path path' : String} {change : Tree → Tree} {entries : List String}
    (each : ∀ entry ∈ entries,
      walk context (nestedWithin context depth) none (segments ++ beyond container entry) previous
          model path =
        (walk context (nestedWithin context depth) none (rest ++ beyond container entry) previous'
          model' path').map (Option.map change)) :
    treesFrom context depth container segments previous model path entries =
      (treesFrom context depth container rest previous' model' path' entries).map change := by
  rw [treesFrom, treesFrom, List.map_filterMap]
  apply List.filterMap_congr
  intro entry member
  rw [each entry member, found?_map]

theorem treesFrom_append {context : Context} {depth : Nat} {container : String}
    {segments : List String} {previous : Option String} {model path : String}
    (first second : List String) :
    treesFrom context depth container segments previous model path (first ++ second) =
      treesFrom context depth container segments previous model path first ++
        treesFrom context depth container segments previous model path second :=
  List.filterMap_append

theorem found?_eq_some_iff {outcome : Contribution} {tree : Tree} :
    found? outcome = some tree ↔ outcome = .ok (some tree) := by
  cases outcome <;> simp [found?]

theorem object_of_walk {context : Context} {nested : Nesting} {change : Option FieldOverride}
    {segment : String} {rest : List String} {previous : Option String} {model path : String}
    {tree : Tree}
    (found : found? (walk context nested change (segment :: rest) previous model path) =
      some tree) : ∃ members, tree = .object members := by
  obtain ⟨_, value, same, _⟩ := step_of_walk (found?_eq_some_iff.mp found)
  exact ⟨_, same⟩

/-- What a walk finds stands under its first key. -/
theorem memberOf?_of_walk {context : Context} {nested : Nesting} {change : Option FieldOverride}
    {name segment : String} (different : name ≠ Path.keyOf segment) (rest : List String)
    (previous : Option String) (model path : String) :
    (found? (walk context nested change (segment :: rest) previous model path)).bind
      (memberOf? name) = none := by
  cases found : found? (walk context nested change (segment :: rest) previous model path) with
  | none => rfl
  | some tree =>
      obtain ⟨_, value, same, _⟩ := step_of_walk (found?_eq_some_iff.mp found)
      rw [same, Option.bind_some]
      simp [memberOf?, single, List.lookup_cons, beq_false_of_ne different]

/-! ## At the container -/

namespace Contains

variable {context : Context} {container : String} {before after : List String}
  (contains : Contains context container before after)

include contains

theorem exists_beyond {entry : String} (member : entry ∈ before ++ after) :
    ∃ key rest, beyond container entry = key :: rest ∧ Path.keyOf key = key ∧
      Operator.ofKey? key ≠ some .quantifier := by
  obtain ⟨plain, key, rest, split, kind⟩ := contains.beneath entry member
  have inside : key ∈ Path.segments entry := by
    rw [split]
    exact List.mem_append_right _ List.mem_cons_self
  have named := Path.keyOf_of_markerFree (plain key inside).2
  exact ⟨key, rest, beyond_of_split split, named, kind⟩

variable {depth : Nat} {target place : String}

theorem objects_treesFrom {previous : Option String} :
    ∀ tree ∈ treesFrom context depth container [] previous target place (before ++ after),
      ∃ members, tree = .object members := by
  intro tree member
  obtain ⟨entry, listed, found⟩ := List.mem_filterMap.mp member
  obtain ⟨key, rest, split, _⟩ := contains.exists_beyond listed
  rw [List.nil_append, split] at found
  exact object_of_walk found

omit contains in
theorem distinct_treesFrom {segments : List String} {previous : Option String}
    {entries : List String} :
    ∀ tree ∈ treesFrom context depth container segments previous target place entries,
      Distinct tree := by
  intro tree member
  obtain ⟨entry, _, found⟩ := List.mem_filterMap.mp member
  exact distinct_of_walk (found?_eq_some_iff.mp found)

/-- Taken in by the container, the entries come to the same, except that nothing can be compared
with the field before them. -/
theorem valuesAt_treesFrom (name : String) (previous : Option String) :
    valuesAt name (treesFrom context depth container [] none target place (before ++ after)) =
      if comparesField name then []
      else valuesAt name
        (treesFrom context depth container [] previous target place (before ++ after)) := by
  have each : ∀ entry ∈ before ++ after,
      (found? (walk context (nestedWithin context depth) none ([] ++ beyond container entry) none
          target place)).bind (memberOf? name) =
        if comparesField name then none
        else (found? (walk context (nestedWithin context depth) none
          ([] ++ beyond container entry) previous target place)).bind (memberOf? name) := by
    intro entry member
    obtain ⟨key, rest, split, named, kind⟩ := contains.exists_beyond member
    rw [List.nil_append, split]
    by_cases here : name = Path.keyOf key
    · rw [walk_of_no_previous (named.symm ▸ kind) rest previous, ← here]
      cases comparesField name <;> rfl
    · rw [memberOf?_of_walk here, memberOf?_of_walk here, ite_self]
  rw [valuesAt, valuesAt, treesFrom, treesFrom, List.filterMap_filterMap, List.filterMap_filterMap,
    List.filterMap_congr each]
  cases comparesField name with
  | true => simp
  | false => rfl

theorem nestedWithin_eq {below : Tree} (here : Path.keys place = Path.segments container)
    (ended : nestedWithin context depth target place false = .ok below) :
    below = (treesFrom context depth container [] none target place (before ++ after)).foldl merge
      emptyObject := by
  cases depth with
  | zero => cases ended
  | succ depth =>
      obtain ⟨results, all, merged⟩ := nestedWithin_succ_eq_ok ended
      rw [chosen_with_operations, contains.descendants_of_keys here,
        List.forall₂_map_left_iff] at all
      have deeper : List.Forall₂ (fun entry result =>
          walk context (nestedWithin context (depth + 1)) none ([] ++ beyond container entry) none
            target place = .ok result) (before ++ after) results :=
        all.imp fun _ _ walked => walk_extends (nestedWithin_extends_succ depth) walked
      rw [merged, filterMap_found? deeper]
      rfl

/-- One step before the place of the container. -/
theorem treesFrom_container {segment : String} {previous : Option String} {model path : String}
    {field : Field}
    (allowed : context.isAllowed (Path.child path (Path.keyOf segment)) = true)
    (unmarked : Path.endsInMarker segment = false)
    (kind : Operator.ofKey? (Path.keyOf segment) = none)
    (found : context.registry.field? (scopeAt context model path) (Path.keyOf segment) = some field)
    (related : context.isLeafType field.typeTag = false)
    (resolved : context.resolveModel? field.typeTag = some target)
    (free : allowedOperations context (Path.child path (Path.keyOf segment)) = [])
    (ends : Ends (walk context (nestedWithin context depth) none [segment] previous model path)) :
    ∃ below,
      nestedWithin context depth target (Path.child path (Path.keyOf segment)) false = .ok below ∧
        treesFrom context depth container [segment] previous model path
            (before ++ container :: after) =
          (treesFrom context depth container [] (some segment) target
              (Path.child path (Path.keyOf segment)) before ++
            nullableIf field.isOptional below ::
              treesFrom context depth container [] (some segment) target
                (Path.child path (Path.keyOf segment)) after).map
            (single (Path.keyOf segment)) := by
  have value : walk context (nestedWithin context depth) none [segment] previous model path = _ :=
    walk_of_relation allowed kind found related
  rw [value, ends_map_iff, ends_map_iff] at ends
  obtain ⟨tree, ended⟩ := ends
  have entered := ended
  rw [unmarked, relation, resolved] at entered
  simp only [free, List.isEmpty_nil, if_true, Bool.false_eq_true, if_false] at entered
  obtain ⟨below, nestedBelow, wrapped⟩ := map_eq_ok_iff.mp entered
  refine ⟨below, nestedBelow, ?_⟩
  have followed : followed? context (scopeAt context model path) (Path.keyOf segment) =
      some target := by
    simpa [followed?, found, related] using resolved
  have others : ∀ entries, (∀ entry ∈ entries, entry ∈ before ++ after) →
      treesFrom context depth container [segment] previous model path entries =
        (treesFrom context depth container [] (some segment) target
          (Path.child path (Path.keyOf segment)) entries).map (single (Path.keyOf segment)) := by
    intro entries listed
    apply treesFrom_eq_map
    intro entry member
    obtain ⟨key, rest, split, _⟩ := contains.exists_beyond (listed entry member)
    rw [split]
    exact walk_of_descent allowed kind unmarked (List.cons_ne_nil key rest)
      (descent_of_followed followed (fun _ _ _ => free) false)
  have own : treesFrom context depth container [segment] previous model path [container] =
      [single (Path.keyOf segment) (nullableIf field.isOptional below)] := by
    rw [treesFrom, List.filterMap_cons, beyond_self, List.append_nil, value, ended, ← wrapped]
    rfl
  have split : before ++ container :: after = before ++ ([container] ++ after) := rfl
  rw [split, treesFrom_append, treesFrom_append, own,
    others before fun _ => List.mem_append_left after,
    others after fun _ => List.mem_append_right before, List.map_append, List.map_cons]
  rfl

/-- Wherever the container stands among the entries beneath it, they come to the same with it as
without it. -/
theorem alike_joined (previous : Option String) {below : Tree} (isOptional : Bool)
    (here : Path.keys place = Path.segments container)
    (ended : nestedWithin context depth target place false = .ok below) :
    Alike True
      (nullableIf isOptional ((treesFrom context depth container [] previous target place
        (before ++ after)).foldl merge emptyObject)).joined
      ((treesFrom context depth container [] previous target place before ++
        nullableIf isOptional below ::
          treesFrom context depth container [] previous target place after).foldl merge
            (.leaf .any)).joined := by
  have wrapped : nullableIf isOptional = id ∨ nullableIf isOptional = asOptional := by
    cases isOptional with
    | true => exact Or.inr rfl
    | false => exact Or.inl rfl
  rw [contains.nestedWithin_eq here ended, treesFrom_append before after]
  apply alike_joined_absorb trivial _ contains.objects_treesFrom _ distinct_treesFrom _ wrapped
  · rw [← treesFrom_append]
    exact contains.objects_treesFrom
  · rw [← treesFrom_append]
    exact distinct_treesFrom
  · intro name
    rw [← treesFrom_append before after, contains.valuesAt_treesFrom name previous]
    cases comparesField name with
    | true => exact Or.inl rfl
    | false => exact Or.inr rfl

end Contains

end Synthesis

open Synthesis

/-! ## Schemas -/

/-- The sections are those of the schema with joined arrays as well. -/
theorem buildSections_of_buildSchema {context : Context} {model : String} {schema : Tree}
    (built : buildSchema context model = .ok schema) :
    buildSections context model = .ok (sectionsOf schema.joined) := by
  have same : sectionsOf schema.joined = sectionsOf schema := by
    cases schema with
    | leaf expr => rw [Tree.joined_leaf]
    | array elements =>
        rw [Tree.joined_array]
        rfl
    | optional inner =>
        rw [Tree.joined_optional]
        rfl
    | object members =>
        rw [Tree.joined_object]
        show (members.map fun entry => (entry.1, entry.2.joined)).map
          (fun entry => (entry.1, entry.2.render)) =
            members.map fun entry => (entry.1, entry.2.render)
        rw [List.map_map]
        exact List.map_congr_left fun entry _ => congrArg (Prod.mk entry.1) entry.2.render_joined
  rw [buildSections, built, same]
  rfl

namespace Synthesis.Contains

variable {context : Context} {model container : String} {before after : List String}
  (contains : Contains context container before after) {depth : Nat}
  (deep : nestingBound context ≤ depth)

include contains deep

theorem walk_ends : Outcome.Ends (walk context (nestedWithin context depth) none
    (Path.segments container) none model "") := by
  obtain ⟨found, contributed⟩ :=
    AllowEntry.contribution_ends (contains.not_endless model) (.bare container)
  exact ⟨found, walk_extends (nestedWithin_extends deep) contributed⟩

/-- The schema is what the container and the entries beneath it come to. -/
theorem buildSchema_eq (registered : context.registry.hasModel model = true)
    (filled : treesFrom context depth container (Path.segments container) none model ""
      (before ++ container :: after) ≠ []) :
    buildSchema context model = .ok ((treesFrom context depth container (Path.segments container)
      none model "" (before ++ container :: after)).foldl Tree.merge (.leaf .any)) := by
  have finite := contains.not_endless model
  have trees : context.allow.entries.filterMap (AllowEntry.tree? context model) =
      treesFrom context depth container (Path.segments container) none model ""
        (before ++ container :: after) := by
    rw [contains.listed, AllowList.ofPaths, List.filterMap_map]
    apply List.filterMap_congr
    intro entry member
    have ends := AllowEntry.contribution_ends finite (AllowEntry.bare entry)
    rw [Function.comp_apply, AllowEntry.tree?_of_depth ends deep, ← contains.segments_entry member]
    rfl
  rw [buildSchema_of_not_endless registered finite, trees, Tree.foldl_merge_emptyObject filled]

end Synthesis.Contains

end ScopedSchema
