import ScopedSchema.Proofs.Module
import ScopedSchema.Proofs.RelationOperation
import ScopedSchema.Proofs.Synthesis.Everywhere

/-!
# A schema covers allowed paths only

Every key of a synthesized tree stands at the path that the keys above it and the key itself spell,
and that path was judged when the key was written. Merging adds no key paths, so the whole schema
keeps to the allow list.
-/

namespace ScopedSchema

namespace Synthesis

open ScopedSchema.Tree

/-- Below `path`, the keys above every node of the tree spell an allowed path. -/
def Covered (context : Context) (path : String) : Tree → Prop :=
  Everywhere fun keys _ => context.isAllowed (keys.foldl Path.child path) = true

variable {context : Context}

theorem covered_foldl_merge {path : String} {trees : List Tree}
    (all : ∀ tree ∈ trees, Covered context path tree) :
    Covered context path (trees.foldl merge emptyObject) :=
  everywhere_foldl_merge (fun _ _ _ allowed _ => allowed) all

theorem covered_leaf (change : Option FieldOverride) (isOptional isList : Bool)
    (tag path place : String) :
    Covered context place (leaf context change isOptional isList tag path) :=
  everywhere_markList isList (everywhere_leaf _)

theorem covered_operationMembers {model path : String} {isList : Bool}
    {schemas : List (RelationOperation × Expr)}
    (found : relationOperations? context model path isList = some schemas) :
    Covered context path (.object (operationMembers schemas)) := by
  apply everywhere_object
  intro key value member
  rcases List.mem_map.mp member with ⟨entry, listed, same⟩
  simp only [Prod.mk.injEq] at same
  rw [← same.1, ← same.2]
  refine ⟨?_, everywhere_leaf _⟩
  apply mem_allowedOperations_iff.mp
  rw [← operations_of_relationOperations? found]
  exact List.mem_map_of_mem listed

theorem covered_of_related {field : Field} {isList : Bool} {path : String} {tree : Tree}
    (related : Related context (fun _ path _ below => Covered context path below) field isList
      path tree) : Covered context path tree := by
  cases related with
  | unregistered resolved => exact everywhere_leaf _
  | unidentified resolved some none => exact everywhere_leaf _
  | entries resolved plain below =>
      cases isList with
      | true => exact everywhere_listOf below
      | false => exact everywhere_nullableIf field.isOptional below
  | operations resolved some identified below =>
      refine everywhere_nullableIf field.isOptional ?_
      exact everywhere_merge (fun _ _ _ allowed _ => allowed) (covered_operationMembers identified)
        below

theorem covered_of_step {change : Option FieldOverride} {segment : String} {rest : List String}
    {previous : Option String} {scope here : String} {value : Tree}
    (step : Step context change (fun _ path _ below => Covered context path below)
      (fun _ _ path child => Covered context path child) segment rest previous scope here value) :
    Covered context here value := by
  cases step with
  | logical kind child => exact everywhere_listOf child
  | quantifier kind child => exact child
  | pagination kind => exact everywhere_leaf _
  | stringMatch kind => exact everywhere_leaf _
  | membership kind parent => exact everywhere_leaf _
  | comparison kind parent => exact everywhere_leaf _
  | field kind last found leafType => exact covered_leaf _ _ _ _ _ _
  | enum kind last none isEnum => exact covered_leaf _ _ _ _ _ _
  | relation kind found leafType related => exact covered_of_related related
  | plain kind more followed free child => exact everywhere_markList _ child

theorem covered_of_walk {depth : Nat} {change : Option FieldOverride} {segments : List String}
    {previous : Option String} {model path : String} {tree : Tree}
    (walked : walk context (nestedWithin context depth) change segments previous model path =
      .ok (some tree)) : Covered context path tree := by
  apply walk_induction (fun _ _ _ _ path tree => Covered context path tree)
    (fun _ path _ tree => Covered context path tree) _ _ walked
  · intro change segment rest previous model path value allowed step
    exact everywhere_single allowed (covered_of_step step)
  · intro target path skip trees all
    apply covered_foldl_merge
    intro tree member
    rcases all tree member with ⟨_, _, covered⟩
    exact covered

end Synthesis

/-- No key path of a schema goes beyond the allow list. -/
theorem isAllowed_of_keyPath_buildSchema {context : Context} {model : String} {schema : Tree}
    {keys : List String} (built : buildSchema context model = .ok schema)
    (path : schema.KeyPath keys) : context.isAllowed (keys.foldl Path.child "") = true := by
  have merged := (buildSchema_eq_ok_iff.mp built).2.2
  have covered : Synthesis.Covered context "" schema := by
    rw [merged]
    apply Synthesis.covered_foldl_merge
    intro tree member
    rcases mem_trees_iff.mp member with ⟨entry, _, contributed⟩
    exact Synthesis.covered_of_walk contributed
  rcases path with ⟨node, found⟩
  exact covered keys node found

/-- Users with posts, filtered by the titles of their posts. -/
def blog : Context where
  registry :=
    { models := ⟨[
        ("user", ⟨⟨[("posts", { typeTag := "post", isOptional := true, isList := true })],
          by decide⟩⟩),
        ("post", ⟨⟨[("id", { typeTag := "String", isId := true }),
          ("title", { typeTag := "String" })], by decide⟩⟩)], by decide⟩
      enums := Table.empty }
  synonyms := Synonyms.empty
  allow := AllowList.ofPaths ["AND[].posts.title"]

def blogSchema : Tree :=
  .object [("AND", .array [.object [("posts", .object [("title", .leaf .string)])]])]

theorem isAllowed_of_keyPath_blogSchema :
    buildSchema blog "user" = .ok blogSchema ∧ blogSchema.KeyPath ["AND", "posts", "title"] ∧
      blog.isAllowed (["AND", "posts", "title"].foldl Path.child "") = true := by
  have built : buildSchema blog "user" = .ok blogSchema := by rfl
  have path : blogSchema.KeyPath ["AND", "posts", "title"] := by
    refine ⟨.leaf .string, ?_⟩
    apply Tree.NodeAt.deeper List.mem_cons_self
    apply Tree.NodeAt.element List.mem_cons_self
    apply Tree.NodeAt.deeper List.mem_cons_self
    exact Tree.NodeAt.member List.mem_cons_self
  exact ⟨built, path, isAllowed_of_keyPath_buildSchema built path⟩

end ScopedSchema
