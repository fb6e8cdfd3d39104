import ScopedSchema.Proofs.Module
import ScopedSchema.Proofs.RelationOperation
import ScopedSchema.Proofs.Synthesis.Step
import ScopedSchema.Proofs.Tree.Displacement

/-!
# Which paths of the allow list a schema keeps

The schema is the merge of what the entries contribute, from the first to the last. A key path that
an entry contributes is kept unless an entry behind it displaces it, as an entry for a field itself
displaces those for the operators below the field.
-/

namespace ScopedSchema

namespace Synthesis

open ScopedSchema.Tree

variable {context : Context}

theorem distinct_markList {tree : Tree} (isList : Bool) (distinct : Distinct tree) :
    Distinct (markList isList tree) := by
  cases isList with
  | false => exact distinct
  | true =>
      apply Distinct.array
      intro element member
      rw [List.mem_singleton.mp member]
      exact distinct

theorem distinct_nullableIf {tree : Tree} (isOptional : Bool) (distinct : Distinct tree) :
    Distinct (nullableIf isOptional tree) := by
  cases isOptional with
  | false => exact distinct
  | true => exact distinct_asOptional distinct

theorem distinct_leaf (change : Option FieldOverride) (isOptional isList : Bool)
    (tag path : String) : Distinct (leaf context change isOptional isList tag path) :=
  distinct_markList isList (Distinct.leaf _)

theorem distinct_operationMembers {schemas : List (RelationOperation × Expr)}
    (nodup : (schemas.map fun entry => entry.1.name).Nodup) :
    Distinct (.object (operationMembers schemas)) := by
  apply Distinct.object
  · rw [operationMembers, List.map_map]
    exact nodup
  · intro entry member
    obtain ⟨_, _, rfl⟩ := List.mem_map.mp member
    exact Distinct.leaf _

theorem distinct_of_related {field : Field} {isList : Bool} {path : String} {tree : Tree}
    (related : Related context (fun _ _ _ below => Distinct below) field isList path tree) :
    Distinct tree := by
  cases related with
  | unregistered resolved => exact Distinct.leaf _
  | unidentified resolved some none => exact Distinct.leaf _
  | entries resolved plain below =>
      cases isList with
      | true => exact distinct_markList true below
      | false => exact distinct_nullableIf field.isOptional below
  | operations resolved some identified below =>
      exact distinct_nullableIf field.isOptional
        (distinct_merge
          (distinct_operationMembers (names_nodup_of_relationOperations? identified)) below)

theorem distinct_of_walk {depth : Nat} {change : Option FieldOverride} {segments : List String}
    {previous : Option String} {model path : String} {tree : Tree}
    (walked : walk context (nestedWithin context depth) change segments previous model path =
      .ok (some tree)) : Distinct tree := by
  apply walk_induction (fun _ _ _ _ _ tree => Distinct tree) (fun _ _ _ tree => Distinct tree) _ _
    walked
  · intro change segment rest previous model path value _ step
    apply Distinct.object
    · exact List.nodup_singleton _
    · intro entry member
      rw [List.mem_singleton.mp member]
      cases step with
      | logical kind child => exact distinct_markList true child
      | quantifier kind child => exact child
      | pagination kind => exact Distinct.leaf _
      | stringMatch kind => exact Distinct.leaf _
      | membership kind parent => exact Distinct.leaf _
      | comparison kind parent => exact Distinct.leaf _
      | field kind last found leafType => exact distinct_leaf _ _ _ _ _
      | enum kind last none isEnum => exact distinct_leaf _ _ _ _ _
      | relation kind found leafType related => exact distinct_of_related related
      | plain kind more followed free child => exact distinct_markList _ child
  · intro target path skip trees all
    apply distinct_foldl_merge distinct_emptyObject
    intro tree member
    obtain ⟨_, _, distinct⟩ := all tree member
    exact distinct

end Synthesis

variable {context : Context} {model : String}

/-- The schema of a registered model is built exactly if the walk of each entry comes to an end. A
key path of it is one that an entry contributes and that none behind it displaces. -/
theorem keyPath_buildSchema_iff (registered : context.registry.hasModel model = true) :
    (Outcome.Ends (buildSchema context model) ↔
      ∀ entry ∈ context.allow.entries, Outcome.Ends (entry.contribution context model)) ∧
    ∀ schema, buildSchema context model = .ok schema → ∀ keys, schema.KeyPath keys ↔
      ∃ before entry after tree, context.allow.entries = before ++ entry :: after ∧
        entry.contribution context model = .ok (some tree) ∧ tree.KeyPath keys ∧
        ∀ later ∈ after, ∀ other, later.contribution context model = .ok (some other) →
          ¬ other.Displaces tree keys := by
  constructor
  · constructor
    · intro built
      rcases built with ⟨schema, built⟩
      exact (buildSchema_eq_ok_iff.mp built).2.1
    · intro ends
      exact ⟨_, buildSchema_eq_ok_iff.mpr ⟨registered, ends, rfl⟩⟩
  intro schema built keys
  rw [(buildSchema_eq_ok_iff.mp built).2.2]
  have distinct : ∀ tree ∈ context.allow.entries.filterMap (AllowEntry.tree? context model),
      tree.Distinct := by
    intro tree member
    rcases mem_trees_iff.mp member with ⟨entry, _, contributed⟩
    exact Synthesis.distinct_of_walk contributed
  rw [Tree.keyPath_foldl_merge_iff distinct]
  constructor
  · intro kept
    rcases kept with ⟨before, tree, after, split, path, kept⟩
    rcases List.filterMap_eq_append_iff.mp split with ⟨earlier, rest, same, _, found⟩
    rcases List.filterMap_eq_cons_iff.mp found with
      ⟨fruitless, entry, later, same', _, gives, others⟩
    refine ⟨earlier ++ fruitless, entry, later, tree, ?_, AllowEntry.tree?_eq_some_iff.mp gives,
      path, ?_⟩
    · rw [same, same', List.append_assoc]
    · intro next member other contributed
      apply kept
      rw [← others, List.mem_filterMap]
      exact ⟨next, member, AllowEntry.tree?_eq_some_iff.mpr contributed⟩
  · intro kept
    rcases kept with ⟨before, entry, after, tree, split, contributed, path, kept⟩
    refine ⟨before.filterMap (AllowEntry.tree? context model), tree,
      after.filterMap (AllowEntry.tree? context model), ?_, path, ?_⟩
    · rw [split, List.filterMap_append, List.filterMap_cons,
        AllowEntry.tree?_eq_some_iff.mpr contributed]
    · intro other member
      rcases List.mem_filterMap.mp member with ⟨later, inside, found⟩
      exact kept later inside other (AllowEntry.tree?_eq_some_iff.mp found)

/-- Users by their names. -/
def nameFilter (paths : List String) : Context where
  registry := ⟨⟨[("user", ⟨⟨[("name", { typeTag := "String" })], by decide⟩⟩)], by decide⟩,
    Table.empty⟩
  synonyms := Synonyms.empty
  allow := AllowList.ofPaths paths

def equalsTree : Tree := .object [("name", .object [("equals", .leaf .string)])]

theorem keyPath_equalsTree : equalsTree.KeyPath ["name", "equals"] :=
  ⟨.leaf .string, Tree.NodeAt.deeper List.mem_cons_self (Tree.NodeAt.member List.mem_cons_self)⟩

/-- The operator below the field is listed first, and the field itself takes its place. -/
theorem keyPath_displaced_nameFilter :
    AllowEntry.bare "name.equals" ∈ (nameFilter ["name.equals", "name"]).allow.entries ∧
      ∃ schema, (AllowEntry.bare "name.equals").contribution
          (nameFilter ["name.equals", "name"]) "user" = .ok (some equalsTree) ∧
        equalsTree.KeyPath ["name", "equals"] ∧
        buildSchema (nameFilter ["name.equals", "name"]) "user" = .ok schema ∧
        ¬ schema.KeyPath ["name", "equals"] := by
  refine ⟨List.mem_cons_self, .object [("name", .leaf .string)], by rfl, keyPath_equalsTree,
    by rfl, ?_⟩
  intro path
  rcases path with ⟨node, found⟩
  cases found with
  | deeper member found =>
      rw [List.mem_singleton] at member
      cases member
      cases found

/-- The operator below the field is listed last, and stays. -/
theorem keyPath_kept_nameFilter :
    (nameFilter ["name", "name.equals"]).registry.hasModel "user" = true ∧
      ∃ schema, buildSchema (nameFilter ["name", "name.equals"]) "user" = .ok schema ∧
        schema.KeyPath ["name", "equals"] := by
  have registered : (nameFilter ["name", "name.equals"]).registry.hasModel "user" = true := by
    decide
  have contributed : (AllowEntry.bare "name.equals").contribution
      (nameFilter ["name", "name.equals"]) "user" = .ok (some equalsTree) := by rfl
  have ends : ∀ entry ∈ (nameFilter ["name", "name.equals"]).allow.entries, Outcome.Ends
      (entry.contribution (nameFilter ["name", "name.equals"]) "user") := by
    intro entry member
    rcases List.mem_cons.mp member with same | member
    · rw [same]
      exact ⟨some (.single "name" (.leaf .string)), by rfl⟩
    · rw [List.mem_singleton.mp member]
      exact ⟨_, contributed⟩
  rcases keyPath_buildSchema_iff registered with ⟨built, kept⟩
  rcases built.mpr ends with ⟨schema, built⟩
  refine ⟨registered, schema, built, (kept schema built _).mpr ?_⟩
  refine ⟨[.bare "name"], .bare "name.equals", [], equalsTree, rfl, contributed,
    keyPath_equalsTree, ?_⟩
  intro later member
  cases member

end ScopedSchema
