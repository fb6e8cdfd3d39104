import ScopedSchema.Proofs.AllowList
import ScopedSchema.Proofs.Module
import ScopedSchema.Proofs.RelationOperation
import ScopedSchema.Proofs.Synthesis.Coverage

/-!
# The operations of a relation do not depend on the entries that reach it

A relation with operations below it may be reached by many entries, at their ends, on their way or
from the entries below another relation. Each of them finds the same field and writes the same
operations first, entries below the relation add other members only, and a merge of such nodes keeps
them as they are.
-/

namespace ScopedSchema

namespace Synthesis

open ScopedSchema.Tree

/-- The field at the end of some plain segments, seen as a walk over them sees it. -/
def fieldAt? (context : Context) : String → String → List String → Option Field
  | _, _, [] => none
  | model, path, [key] => context.registry.field? (scopeAt context model path) key
  | model, path, key :: next :: rest =>
    (followed? context (scopeAt context model path) key).bind fun following =>
      fieldAt? context following (Path.child path key) (next :: rest)

/-- The segments lead to a relation with operations, and to no such relation on the way. -/
structure OperationPlace (context : Context) (model path : String) (keys : List String)
    (field : Field) (target : String) : Prop where
  plain : ∀ key ∈ keys, Operator.ofKey? key = none
  found : fieldAt? context model path keys = some field
  related : context.isLeafType field.typeTag = false
  resolved : context.resolveModel? field.typeTag = some target
  identified : ((context.registry.model? target).bind Model.identifier?).isSome = true
  allowed : allowedOperations context (keys.foldl Path.child path) ≠ []
  first : ∀ above, above <+: keys → above ≠ keys → ∀ other,
    fieldAt? context model path above = some other → context.isLeafType other.typeTag = false →
    allowedOperations context (above.foldl Path.child path) = []

/-- The object begins with the operations, and no other member is named like one. It is nullable
as the field is. -/
def WithOperations (schemas : List (RelationOperation × Expr)) (isOptional : Bool)
    (tree : Tree) : Prop :=
  ∃ others, tree = nullableIf isOptional (.object (operationMembers schemas ++ others)) ∧
    ∀ entry ∈ others, RelationOperation.isName entry.1 = false

/-- An object without members that are named like operations. -/
def WithoutOperations (tree : Tree) : Prop :=
  ∃ members, tree = .object members ∧ ∀ entry ∈ members, RelationOperation.isName entry.1 = false

variable {context : Context}

/-! ## Merging -/

theorem isName_of_mem_mergeMembers {left right : List (String × Tree)}
    (first : ∀ entry ∈ left, RelationOperation.isName entry.1 = false)
    (second : ∀ entry ∈ right, RelationOperation.isName entry.1 = false) :
    ∀ entry ∈ mergeMembers left right, RelationOperation.isName entry.1 = false := by
  intro entry member
  rcases mem_mergeMembers member with old | new | ⟨name, early, late, old, new, same⟩
  · exact first entry old
  · exact second entry new
  · rw [same]
    exact first (name, early) old

theorem withoutOperations_merge {left right : Tree} (first : WithoutOperations left)
    (second : WithoutOperations right) : WithoutOperations (merge left right) := by
  rcases first with ⟨members, left, plain⟩
  rcases second with ⟨others, right, plain'⟩
  rw [left, right, merge_object_object]
  exact ⟨_, rfl, isName_of_mem_mergeMembers plain plain'⟩

theorem withoutOperations_foldl_merge {trees : List Tree}
    (all : ∀ tree ∈ trees, WithoutOperations tree) :
    WithoutOperations (trees.foldl merge emptyObject) := by
  refine List.foldlRecOn trees merge ⟨[], rfl, by simp⟩ ?_
  intro start first tree member
  exact withoutOperations_merge first (all tree member)

/-- Both sides begin with the same operations, and so does their merge. -/
theorem withOperations_merge {schemas : List (RelationOperation × Expr)} {isOptional : Bool}
    {left right : Tree} (first : WithOperations schemas isOptional left)
    (second : WithOperations schemas isOptional right) :
    WithOperations schemas isOptional (merge left right) := by
  rcases first with ⟨early, left, plain⟩
  rcases second with ⟨late, right, plain'⟩
  have leaves : ∀ entry ∈ operationMembers schemas, ∃ expr, entry.2 = .leaf expr := by
    intro entry member
    rcases List.mem_map.mp member with ⟨schema, _, same⟩
    rw [← same]
    exact ⟨_, rfl⟩
  refine ⟨mergeMembers early late, ?_, isName_of_mem_mergeMembers plain plain'⟩
  rw [left, right, ← mergeMembers_append_append leaves, ← merge_object_object]
  cases isOptional with
  | false => rfl
  | true => exact merge_optional_left _ _

/-- Entries below a relation come after its operations. -/
theorem withOperations_merge_entries {schemas : List (RelationOperation × Expr)} {below : Tree}
    (isOptional : Bool) (plain : WithoutOperations below) :
    WithOperations schemas isOptional
      (nullableIf isOptional ((Tree.object (operationMembers schemas)).merge below)) := by
  rcases plain with ⟨members, same, plain⟩
  refine ⟨members, ?_, plain⟩
  rw [same, merge_object_object, mergeMembers_of_disjoint]
  intro entry member
  rcases List.mem_map.mp member with ⟨schema, _, same⟩
  rw [List.lookup_eq_none_iff]
  intro other inside
  rw [← same, bne_iff_ne]
  intro equal
  have named := RelationOperation.isName_name schema.1
  have unnamed := plain other inside
  rw [← equal, named] at unnamed
  cases unnamed

/-! ## One step -/

/-- Wherever the keys above a node lead to a relation with operations, the node begins with them. -/
def Uniform (context : Context) (model path : String) : Tree → Prop :=
  Everywhere fun keys node => ∀ field target schemas,
    OperationPlace context model path keys field target →
    relationOperations? context target (keys.foldl Path.child path) field.isList = some schemas →
    WithOperations schemas field.isOptional node

theorem uniform_foldl_merge {model path : String} {trees : List Tree}
    (all : ∀ tree ∈ trees, Uniform context model path tree) :
    Uniform context model path (trees.foldl merge emptyObject) := by
  refine everywhere_foldl_merge ?_ all
  intro keys first second early late field target schemas place identified
  exact withOperations_merge (early field target schemas place identified)
    (late field target schemas place identified)

theorem OperationPlace.behind {model path key next : String} {rest : List String} {field : Field}
    {target : String}
    (place : OperationPlace context model path (key :: next :: rest) field target) :
    ∃ following, followed? context (scopeAt context model path) key = some following ∧
      (∀ other, context.registry.field? (scopeAt context model path) key = some other →
        context.isLeafType other.typeTag = false →
        allowedOperations context (Path.child path key) = []) ∧
      OperationPlace context following (Path.child path key) (next :: rest) field target := by
  have found := place.found
  rw [fieldAt?] at found
  rcases Option.bind_eq_some_iff.mp found with ⟨following, followed, later⟩
  refine ⟨following, followed, ?_, ?_⟩
  · have head : [key] <+: key :: next :: rest := ⟨next :: rest, rfl⟩
    exact place.first [key] head (by simp)
  · refine ⟨fun other member => place.plain other (List.mem_cons_of_mem _ member), later,
      place.related, place.resolved, place.identified, place.allowed, ?_⟩
    intro above begins shorter other here
    cases above with
    | nil => cases here
    | cons first above =>
        apply place.first (key :: first :: above)
        · exact List.cons_prefix_cons.mpr ⟨rfl, begins⟩
        · intro same
          exact shorter (List.cons.inj same).2
        · rw [fieldAt?, followed]
          exact here

/-- The value of a relation with operations. -/
theorem withOperations_of_related {field : Field} {isList : Bool} {path target : String}
    {schemas : List (RelationOperation × Expr)} {value : Tree}
    (resolved : context.resolveModel? field.typeTag = some target)
    (allowed : allowedOperations context path ≠ [])
    (identified : relationOperations? context target path field.isList = some schemas)
    (related : Related context (fun _ _ skip below => skip = true → WithoutOperations below) field
      isList path value) : WithOperations schemas field.isOptional value := by
  cases related with
  | unregistered absent =>
      rw [resolved] at absent
      cases absent
  | entries _ plain _ => exact absurd plain allowed
  | unidentified same _ absent =>
      rw [resolved] at same
      rw [← Option.some.inj same, identified] at absent
      cases absent
  | operations same _ same' below =>
      rw [resolved] at same
      rw [← Option.some.inj same, identified] at same'
      rw [← Option.some.inj same']
      exact withOperations_merge_entries field.isOptional (below rfl)

/-- Below a relation without operations stands what its entries say. -/
theorem uniform_of_related {field : Field} {isList : Bool} {path following : String}
    {value : Tree} (followed : context.resolveModel? field.typeTag = some following)
    (plain : allowedOperations context path = [])
    (related : Related context (fun target path _ below => Uniform context target path below) field
      isList path value) : Uniform context following path value := by
  cases related with
  | unregistered _ => exact everywhere_leaf _
  | unidentified _ some _ => exact absurd plain some
  | operations _ some _ _ => exact absurd plain some
  | entries resolved _ below =>
      rw [followed] at resolved
      rw [← Option.some.inj resolved] at below
      cases isList with
      | true => exact everywhere_listOf below
      | false => exact everywhere_nullableIf field.isOptional below

section Step

variable {change : Option FieldOverride} {segment : String} {rest : List String}
  {previous : Option String} {model path : String} {value : Tree}
  (step : Step context change
    (fun target path skip below =>
      Uniform context target path below ∧ (skip = true → WithoutOperations below))
    (fun _ model path child => Uniform context model path child) segment rest previous
    (scopeAt context model path) (Path.child path (Path.keyOf segment)) value)

include step

theorem withOperations_of_step {field : Field} {target : String}
    {schemas : List (RelationOperation × Expr)}
    (place : OperationPlace context model path [Path.keyOf segment] field target)
    (identified : relationOperations? context target (Path.child path (Path.keyOf segment))
      field.isList = some schemas) : WithOperations schemas field.isOptional value := by
  have found := place.found
  rw [fieldAt?] at found
  rcases step.of_plain (place.plain _ List.mem_cons_self) with
    ⟨isList, expr, _, leafType⟩ | ⟨other, same, _, related⟩ | ⟨next, child, _, free, _, _⟩
  · have leafType := leafType field found
    rw [place.related] at leafType
    cases leafType
  · rw [found] at same
    rw [← Option.some.inj same] at related
    apply withOperations_of_related place.resolved place.allowed identified
    exact related.mono fun _ _ _ _ below => below.2
  · exact absurd (free field found place.related) place.allowed

theorem uniform_behind {following : String}
    (kind : Operator.ofKey? (Path.keyOf segment) = none)
    (followed : followed? context (scopeAt context model path) (Path.keyOf segment) =
      some following)
    (free : ∀ other,
      context.registry.field? (scopeAt context model path) (Path.keyOf segment) = some other →
      context.isLeafType other.typeTag = false →
      allowedOperations context (Path.child path (Path.keyOf segment)) = []) :
    Uniform context following (Path.child path (Path.keyOf segment)) value := by
  rcases step.of_plain kind with
    ⟨isList, expr, same, _⟩ | ⟨field, found, leafType, related⟩ | ⟨next, child, same, _, all, shape⟩
  · rw [same]
    exact everywhere_markList isList (everywhere_leaf expr)
  · have resolved : context.resolveModel? field.typeTag = some following := by
      simpa [followed?, found, leafType] using followed
    apply uniform_of_related resolved (free field found leafType)
    exact related.mono fun _ _ _ _ below => below.1
  · rw [followed] at same
    rw [shape, Option.some.inj same]
    exact everywhere_markList _ all

theorem uniform_of_step : Uniform context model path (.single (Path.keyOf segment) value) := by
  apply everywhere_single
  · intro field target schemas place identified
    exact withOperations_of_step step place identified
  · intro keys node found field target schemas place identified
    cases keys with
    | nil => exact absurd found (not_nodeAt_nil value node)
    | cons next rest =>
        have kind := place.plain _ List.mem_cons_self
        rcases place.behind with ⟨following, followed, free, behind⟩
        exact uniform_behind step kind followed free _ node found field target schemas behind
          identified

end Step

/-! ## All entries -/

/-- The name under which a walk puts what it finds is its first segment. -/
def Named (segments : List String) (tree : Tree) : Prop :=
  ∃ key value, (segments.map Path.keyOf).head? = some key ∧ tree = .single key value

theorem withoutOperations_of_chosen {descendant : Descendant} {path : String} {tree : Tree}
    (member : descendant ∈ chosen context path true) (named : Named descendant.remaining tree) :
    WithoutOperations tree := by
  rcases named with ⟨key, value, first, same⟩
  obtain ⟨listed, passed⟩ := List.mem_filter.mp member
  rw [AllowList.map_keyOf_remaining listed] at first
  rw [first] at passed
  have plain : RelationOperation.isName key = false := by simpa using passed
  refine ⟨[(key, value)], same, ?_⟩
  intro entry inside
  rw [List.mem_singleton.mp inside]
  exact plain

theorem uniform_of_walk {depth : Nat} {change : Option FieldOverride} {segments : List String}
    {previous : Option String} {model path : String} {tree : Tree}
    (walked : walk context (nestedWithin context depth) change segments previous model path =
      .ok (some tree)) : Uniform context model path tree := by
  have both := walk_induction
    (fun _ segments _ model path tree => Uniform context model path tree ∧ Named segments tree)
    (fun target path skip below =>
      Uniform context target path below ∧ (skip = true → WithoutOperations below)) ?_ ?_ walked
  · exact both.1
  · intro change segment rest previous model path value _ step
    refine ⟨uniform_of_step (step.mono (fun _ _ _ _ below => below) fun _ _ _ _ all => all.1), ?_⟩
    exact ⟨Path.keyOf segment, value, rfl, rfl⟩
  · intro target path skip trees all
    constructor
    · apply uniform_foldl_merge
      intro tree member
      rcases all tree member with ⟨_, _, uniform, _⟩
      exact uniform
    · intro skipped
      apply withoutOperations_foldl_merge
      intro tree member
      rcases all tree member with ⟨descendant, inside, _, named⟩
      rw [skipped] at inside
      exact withoutOperations_of_chosen inside named

theorem uniform_buildSchema {model : String} {schema : Tree}
    (built : buildSchema context model = .ok schema) : Uniform context model "" schema := by
  rw [(buildSchema_eq_ok_iff.mp built).2.2]
  apply uniform_foldl_merge
  intro tree member
  rcases mem_trees_iff.mp member with ⟨entry, _, contributed⟩
  exact uniform_of_walk contributed

/-! ## Other allow lists -/

theorem fieldAt?_withAllow (allow : AllowList) (model path : String) (keys : List String) :
    fieldAt? (context.withAllow allow) model path keys = fieldAt? context model path keys := by
  induction keys generalizing model path with
  | nil => rfl
  | cons key keys induction =>
      cases keys with
      | nil => rfl
      | cons next rest =>
          rw [fieldAt?, fieldAt?]
          exact congrArg _ (funext fun following => induction following _)

theorem OperationPlace.withAllow {allow : AllowList}
    (same : ∀ path, allow.isAllowed path = context.allow.isAllowed path) {model path : String}
    {keys : List String} {field : Field} {target : String}
    (place : OperationPlace context model path keys field target) :
    OperationPlace (context.withAllow allow) model path keys field target where
  plain := place.plain
  found := by
    rw [fieldAt?_withAllow]
    exact place.found
  related := place.related
  resolved := place.resolved
  identified := place.identified
  allowed := by
    rw [allowedOperations_withAllow same]
    exact place.allowed
  first := by
    intro above begins shorter other found leafType
    rw [fieldAt?_withAllow] at found
    rw [allowedOperations_withAllow same]
    exact place.first above begins shorter other found leafType

end Synthesis

open Synthesis

/-- All nodes of a relation with operations begin with the same ones, whatever the order, the
overrides and the list markers of the entries that reach it. -/
theorem withOperations_of_nodeAt_buildSchema {context : Context} {model : String}
    {keys : List String} {field : Field} {target : String}
    (place : OperationPlace context model "" keys field target) :
    ∃ schemas,
      relationOperations? context target (keys.foldl Path.child "") field.isList = some schemas ∧
      schemas.map Prod.fst = allowedOperations context (keys.foldl Path.child "") ∧
      (∀ schema, buildSchema context model = .ok schema →
        ∀ node, schema.NodeAt keys node → WithOperations schemas field.isOptional node) ∧
      ∀ allow : AllowList,
        (allow.entries.map AllowEntry.keys).Perm (context.allow.entries.map AllowEntry.keys) →
        ∀ schema, buildSchema (context.withAllow allow) model = .ok schema →
          ∀ node, schema.NodeAt keys node → WithOperations schemas field.isOptional node := by
  rcases Option.isSome_iff_exists.mp place.identified with ⟨identifier, found⟩
  have identified : ∃ schemas, relationOperations? context target (keys.foldl Path.child "")
      field.isList = some schemas := by
    rw [relationOperations?, found]
    exact ⟨_, rfl⟩
  rcases identified with ⟨schemas, identified⟩
  refine ⟨schemas, identified, operations_of_relationOperations? identified, ?_, ?_⟩
  · intro schema built node inside
    exact uniform_buildSchema built keys node inside field target schemas place identified
  · intro allow permuted schema built node inside
    have same := AllowList.isAllowed_of_perm permuted
    rw [← relationOperations?_withAllow same] at identified
    exact uniform_buildSchema built keys node inside field target schemas (place.withAllow same)
      identified

/-- Posts with their authors, and what may be done with the posts of an author. -/
def authors : Context where
  registry :=
    { models := ⟨[
        ("post", ⟨⟨[("title", { typeTag := "String" }), ("by", { typeTag := "user" }),
          ("id", { typeTag := "String", isId := true })], by decide⟩⟩),
        ("user", ⟨⟨[("name", { typeTag := "String" }),
          ("posts", { typeTag := "post", isOptional := true, isList := true })], by decide⟩⟩)],
        by decide⟩
      enums := Table.empty }
  synonyms := Synonyms.empty
  allow := AllowList.ofPaths ["by.posts", "by.posts.connect", "by.posts.set", "by.posts.title"]

theorem operationPlace_authors :
    OperationPlace authors "post" "" ["by", "posts"]
      { typeTag := "post", isOptional := true, isList := true } "post" where
  plain := by decide
  found := by rfl
  related := by rfl
  resolved := by rfl
  identified := by rfl
  allowed := by decide
  first := by
    intro above begins shorter other found _
    have plain : allowedOperations authors (["by"].foldl Path.child "") = [] := by decide
    rcases List.prefix_cons_iff.mp begins with empty | ⟨rest, same, begins⟩
    · rw [empty] at found
      cases found
    · rcases List.prefix_cons_iff.mp begins with empty | ⟨last, same', none⟩
      · rw [same, empty, plain]
      · rw [same, same', List.prefix_nil.mp none] at shorter
        exact absurd rfl shorter

/-- The same paths from the other end, some of them with list markers and messages. -/
def reorderedPosts : AllowList :=
  ⟨[.override "by.posts[].title" { message := some "no title" },
    .bare "by[].posts.set",
    .override "by.posts.connect[]" { message := some "not a post" },
    .bare "by.posts[]"]⟩

def postsTree : Tree :=
  .optional (.object [
    ("connect", .leaf (.object [("id", .string)])),
    ("set", .leaf (Expr.object [("set", .array (.object [("id", .string)]))]).nullish),
    ("title", .leaf (Expr.string.withMessage "no title"))])

/-- The two operations come first, in their own order and without a message, although the title is
the first in the list. -/
theorem withOperations_of_nodeAt_reorderedPosts :
    (reorderedPosts.entries.map AllowEntry.keys).Perm
        (authors.allow.entries.map AllowEntry.keys) ∧
      buildSchema (authors.withAllow reorderedPosts) "post" =
        .ok (.object [("by", .object [("posts", postsTree)])]) ∧
      ∃ schemas, relationOperations? authors "post" "by.posts" true = some schemas ∧
        schemas.map Prod.fst = [.connect, .set] ∧ WithOperations schemas true postsTree := by
  have permuted : (reorderedPosts.entries.map AllowEntry.keys).Perm
      (authors.allow.entries.map AllowEntry.keys) := by
    decide +kernel
  have built : buildSchema (authors.withAllow reorderedPosts) "post" =
      .ok (.object [("by", .object [("posts", postsTree)])]) := by
    decide +kernel
  have operations : allowedOperations authors "by.posts" = [.connect, .set] := by decide
  rcases withOperations_of_nodeAt_buildSchema operationPlace_authors with
    ⟨schemas, found, names, _, everywhere⟩
  refine ⟨permuted, built, schemas, found, names.trans operations, ?_⟩
  exact everywhere reorderedPosts permuted _ built postsTree
    (Tree.NodeAt.deeper List.mem_cons_self (Tree.NodeAt.member List.mem_cons_self))

end ScopedSchema
