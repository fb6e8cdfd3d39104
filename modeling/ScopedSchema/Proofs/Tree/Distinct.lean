import Mathlib.Data.List.Nodup
import ScopedSchema.Proofs.Tree.Merge

/-!
# Trees whose objects name no member twice

Merging two such trees gives such a tree: the names of the left side keep their places, and what is
added behind them is new.
-/

namespace ScopedSchema

namespace Tree

/-- No object inside the tree has two members of one name. -/
inductive Distinct : Tree → Prop
  | leaf (expr : Expr) : Distinct (.leaf expr)
  | object {members : List (String × Tree)} :
      (members.map Prod.fst).Nodup → (∀ entry ∈ members, Distinct entry.2) →
      Distinct (.object members)
  | array {elements : List Tree} :
      (∀ element ∈ elements, Distinct element) → Distinct (.array elements)
  | optional {inner : Tree} : Distinct inner → Distinct (.optional inner)

theorem distinct_core_iff (tree : Tree) : Distinct tree.core ↔ Distinct tree := by
  induction tree using core.induct with
  | case1 inner induction =>
      rw [core, induction]
      constructor
      · exact Distinct.optional
      · intro distinct
        cases distinct with
        | optional distinct => exact distinct
  | case2 tree plain => rw [core.eq_2 tree plain]

theorem distinct_object_iff {members : List (String × Tree)} :
    Distinct (.object members) ↔
      (members.map Prod.fst).Nodup ∧ ∀ entry ∈ members, Distinct entry.2 := by
  constructor
  · intro distinct
    cases distinct with
    | object nodup all => exact ⟨nodup, all⟩
  · intro split
    rcases split with ⟨nodup, all⟩
    exact Distinct.object nodup all

theorem mem_names_mergeMembers {left right : List (String × Tree)} {name : String}
    (member : name ∈ (mergeMembers left right).map Prod.fst) :
    name ∈ left.map Prod.fst ∨ name ∈ right.map Prod.fst := by
  obtain ⟨entry, inside, rfl⟩ := List.mem_map.mp member
  rcases mem_mergeMembers inside with old | new | ⟨name, first, second, old, _, same⟩
  · exact Or.inl (List.mem_map_of_mem old)
  · exact Or.inr (List.mem_map_of_mem new)
  · rw [same]
    exact Or.inl (List.mem_map.mpr ⟨(name, first), old, rfl⟩)

/-- Where a name stands once, nothing of it is left when it is erased. -/
theorem names_eraseEntry {name : String} {value : Tree} {members : List (String × Tree)}
    (nodup : (members.map Prod.fst).Nodup) (found : members.lookup name = some value) :
    ((eraseEntry name members).map Prod.fst).Nodup ∧
      name ∉ (eraseEntry name members).map Prod.fst := by
  obtain ⟨before, after, same, erased⟩ := split_of_lookup found
  rw [same, List.map_append, List.map_cons, List.nodup_middle, List.nodup_cons] at nodup
  rw [erased, List.map_append]
  exact ⟨nodup.2, nodup.1⟩

theorem names_mergeMembers_nodup {left right : List (String × Tree)}
    (first : (left.map Prod.fst).Nodup) (second : (right.map Prod.fst).Nodup) :
    ((mergeMembers left right).map Prod.fst).Nodup := by
  induction left generalizing right with
  | nil =>
      rw [mergeMembers]
      exact second
  | cons entry rest induction =>
      obtain ⟨name, value⟩ := entry
      rw [List.map_cons, List.nodup_cons] at first
      cases found : right.lookup name with
      | none =>
          rw [mergeMembers, found]
          refine List.nodup_cons.mpr ⟨?_, induction first.2 second⟩
          intro again
          rcases mem_names_mergeMembers again with old | new
          · exact first.1 old
          · obtain ⟨entry, inside, same⟩ := List.mem_map.mp new
            have missing := List.lookup_eq_none_iff.mp found entry inside
            simp [same] at missing
      | some other =>
          rw [mergeMembers, found]
          obtain ⟨nodup, gone⟩ := names_eraseEntry second found
          refine List.nodup_cons.mpr ⟨?_, induction first.2 nodup⟩
          intro again
          rcases mem_names_mergeMembers again with old | new
          · exact first.1 old
          · exact gone new

theorem distinct_append {left right : List Tree} (first : Distinct (.array left))
    (second : Distinct (.array right)) : Distinct (.array (left ++ right)) := by
  cases first with
  | array all =>
      cases second with
      | array allOthers =>
          apply Distinct.array
          intro element member
          rcases List.mem_append.mp member with old | new
          · exact all element old
          · exact allOthers element new

theorem distinct_mergeMembers {left right : List (String × Tree)}
    (first : Distinct (.object left)) (second : Distinct (.object right))
    (shared : ∀ name one other, (name, one) ∈ left → (name, other) ∈ right →
      Distinct (merge one other)) : Distinct (.object (mergeMembers left right)) := by
  rw [distinct_object_iff] at first second ⊢
  refine ⟨names_mergeMembers_nodup first.1 second.1, ?_⟩
  intro entry member
  rcases mem_mergeMembers member with old | new | ⟨name, one, other, old, new, same⟩
  · exact first.2 entry old
  · exact second.2 entry new
  · rw [same]
    exact shared name one other old new

theorem distinct_merge {left right : Tree} (first : Distinct left) (second : Distinct right) :
    Distinct (merge left right) := by
  induction first generalizing right with
  | leaf expr =>
      rw [merge_leaf]
      exact second
  | optional _ induction =>
      rw [merge_optional_left]
      apply Distinct.optional
      apply induction
      rw [← distinct_core_iff, core_dropWrapper, distinct_core_iff]
      exact second
  | @array elements all _ =>
      rw [← distinct_core_iff] at second ⊢
      rw [core_merge]
      cases inside : right.core with
      | leaf expr => exact Distinct.leaf expr
      | optional inner => exact absurd inside (core_ne_optional right inner)
      | object members =>
          rw [inside] at second
          exact second
      | array others =>
          rw [inside] at second
          exact distinct_append (Distinct.array all) second
  | @object members nodup all induction =>
      rw [← distinct_core_iff] at second ⊢
      rw [core_merge]
      cases inside : right.core with
      | leaf expr => exact Distinct.leaf expr
      | optional inner => exact absurd inside (core_ne_optional right inner)
      | array elements =>
          rw [inside] at second
          exact second
      | object others =>
          rw [inside] at second
          apply distinct_mergeMembers (Distinct.object nodup all) second
          intro name one other old new
          exact induction (name, one) old ((distinct_object_iff.mp second).2 (name, other) new)

theorem distinct_foldl_merge {trees : List Tree} {start : Tree} (first : Distinct start)
    (all : ∀ tree ∈ trees, Distinct tree) : Distinct (trees.foldl merge start) := by
  refine List.foldlRecOn trees merge first ?_
  intro before distinct tree member
  exact distinct_merge distinct (all tree member)

theorem distinct_emptyObject : Distinct emptyObject :=
  Distinct.object List.nodup_nil fun _ member => absurd member List.not_mem_nil

theorem distinct_asOptional {tree : Tree} (distinct : Distinct tree) :
    Distinct tree.asOptional := by
  rw [← distinct_core_iff, core_asOptional, distinct_core_iff]
  exact distinct

end Tree

end ScopedSchema
