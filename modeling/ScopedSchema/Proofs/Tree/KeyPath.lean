import ScopedSchema.Proofs.Tree.Merge

/-!
# Key paths

A key path names what stands in a tree below object keys; array elements and nullable wrappers on
the way are passed through. Every node of a merge comes from one side or is the merge of a node of
each.
-/

namespace ScopedSchema

namespace Tree

/-- The node is the value under the last of the keys. The keys are never empty. -/
inductive NodeAt : Tree → List String → Tree → Prop
  | member {members : List (String × Tree)} {key : String} {value : Tree} :
      (key, value) ∈ members → NodeAt (.object members) [key] value
  | deeper {members : List (String × Tree)} {key : String} {value node : Tree}
      {keys : List String} :
      (key, value) ∈ members → NodeAt value keys node → NodeAt (.object members) (key :: keys) node
  | element {elements : List Tree} {element node : Tree} {keys : List String} :
      element ∈ elements → NodeAt element keys node → NodeAt (.array elements) keys node
  | inner {inner node : Tree} {keys : List String} :
      NodeAt inner keys node → NodeAt (.optional inner) keys node

def KeyPath (tree : Tree) (keys : List String) : Prop := ∃ node, NodeAt tree keys node

theorem nodeAt_core (tree : Tree) {node : Tree} {keys : List String} :
    NodeAt tree.core keys node ↔ NodeAt tree keys node := by
  induction tree using core.induct with
  | case1 inner induction =>
      rw [core, induction]
      constructor
      · exact NodeAt.inner
      · intro found
        cases found with
        | inner found => exact found
  | case2 tree plain => rw [core.eq_2 tree plain]

@[simp] theorem not_nodeAt_leaf (expr : Expr) (keys : List String) (node : Tree) :
    ¬ NodeAt (.leaf expr) keys node := by
  intro found
  cases found

theorem nodeAt_object_iff {members : List (String × Tree)} {key : String} {keys : List String}
    {node : Tree} :
    NodeAt (.object members) (key :: keys) node ↔
      ∃ value, (key, value) ∈ members ∧ ((keys = [] ∧ node = value) ∨ NodeAt value keys node) := by
  constructor
  · intro found
    cases found with
    | member member => exact ⟨node, member, Or.inl ⟨rfl, rfl⟩⟩
    | @deeper _ _ value _ _ member found => exact ⟨value, member, Or.inr found⟩
  · intro inside
    rcases inside with ⟨value, member, ⟨rfl, rfl⟩ | found⟩
    · exact NodeAt.member member
    · exact NodeAt.deeper member found

theorem nodeAt_array_iff {elements : List Tree} {keys : List String} {node : Tree} :
    NodeAt (.array elements) keys node ↔ ∃ element ∈ elements, NodeAt element keys node := by
  constructor
  · intro found
    cases found with
    | element member found => exact ⟨_, member, found⟩
  · intro inside
    rcases inside with ⟨element, member, found⟩
    exact NodeAt.element member found

/-- No node stands at the empty path. -/
theorem not_nodeAt_nil (tree node : Tree) : ¬ NodeAt tree [] node := by
  intro found
  generalize empty : ([] : List String) = keys at found
  induction found with
  | member => cases empty
  | deeper => cases empty
  | element _ _ induction => exact induction empty
  | inner _ induction => exact induction empty

theorem nodeAt_listOf_iff {element node : Tree} {keys : List String} :
    NodeAt (.listOf element) keys node ↔ NodeAt element keys node := by
  rw [listOf, nodeAt_array_iff]
  simp

theorem nodeAt_asOptional_iff {tree node : Tree} {keys : List String} :
    NodeAt tree.asOptional keys node ↔ NodeAt tree keys node := by
  rw [← nodeAt_core tree.asOptional, core_asOptional, nodeAt_core]

theorem not_nodeAt_emptyObject (keys : List String) (node : Tree) :
    ¬ NodeAt emptyObject keys node := by
  intro found
  cases found with
  | member member => cases member
  | deeper member _ => cases member

/-! ## Nodes of a merge -/

/-- Where a node of a merge comes from. -/
theorem nodeAt_merge {left right node : Tree} {keys : List String}
    (found : NodeAt (merge left right) keys node) :
    NodeAt left keys node ∨ NodeAt right keys node ∨
      ∃ first second, NodeAt left keys first ∧ NodeAt right keys second ∧
        node = merge first second := by
  induction keys generalizing left right node with
  | nil => exact absurd found (not_nodeAt_nil _ _)
  | cons key keys induction =>
      rw [← nodeAt_core (merge left right), core_merge] at found
      rw [← nodeAt_core left, ← nodeAt_core right]
      simp only [← nodeAt_core left, ← nodeAt_core right]
      generalize left.core = first, right.core = second at found ⊢
      fun_cases mergeCores first second with
      | case1 elements others =>
          rw [mergeCores, nodeAt_array_iff] at found
          obtain ⟨element, member, found⟩ := found
          rcases List.mem_append.mp member with old | new
          · exact Or.inl (NodeAt.element old found)
          · exact Or.inr (Or.inl (NodeAt.element new found))
      | case2 members others =>
          rw [mergeCores, nodeAt_object_iff] at found
          obtain ⟨value, member, found⟩ := found
          rcases mem_mergeMembers member with old | new | ⟨name, left, right, old, new, same⟩
          · exact Or.inl (nodeAt_object_iff.mpr ⟨value, old, found⟩)
          · exact Or.inr (Or.inl (nodeAt_object_iff.mpr ⟨value, new, found⟩))
          · simp only [Prod.mk.injEq] at same
            obtain ⟨rfl, rfl⟩ := same
            rcases found with ⟨rfl, rfl⟩ | found
            · exact Or.inr (Or.inr
                ⟨left, right, NodeAt.member old, NodeAt.member new, rfl⟩)
            · rcases induction found with first | second | ⟨first, second, inLeft, inRight, same⟩
              · exact Or.inl (NodeAt.deeper old first)
              · exact Or.inr (Or.inl (NodeAt.deeper new second))
              · exact Or.inr (Or.inr ⟨first, second, NodeAt.deeper old inLeft,
                  NodeAt.deeper new inRight, same⟩)
      | case3 =>
          rename_i notArrays notObjects
          rw [mergeCores.eq_3 _ _ notArrays notObjects] at found
          exact Or.inr (Or.inl found)

end Tree

end ScopedSchema
