import ScopedSchema.Proofs.Synthesis.Step
import ScopedSchema.Proofs.Tree.KeyPath

/-!
# Properties of all nodes

A property of nodes and of the keys above them holds everywhere in a tree that is put together from
trees where it does, and everywhere in a merge if two nodes under the same keys keep it when they
are merged.
-/

namespace ScopedSchema

namespace Tree

/-- What holds of every node together with the keys that lead to it. -/
def Everywhere (holds : List String → Tree → Prop) (tree : Tree) : Prop :=
  ∀ keys node, tree.NodeAt keys node → holds keys node

variable {holds : List String → Tree → Prop}

theorem everywhere_leaf (expr : Expr) : Everywhere holds (.leaf expr) := by
  intro keys node found
  exact absurd found (not_nodeAt_leaf expr keys node)

theorem everywhere_emptyObject : Everywhere holds emptyObject := by
  intro keys node found
  exact absurd found (not_nodeAt_emptyObject keys node)

theorem everywhere_listOf {element : Tree} (all : Everywhere holds element) :
    Everywhere holds (.listOf element) := by
  intro keys node found
  exact all keys node (nodeAt_listOf_iff.mp found)

theorem everywhere_nullableIf {tree : Tree} (isOptional : Bool) (all : Everywhere holds tree) :
    Everywhere holds (Synthesis.nullableIf isOptional tree) := by
  cases isOptional with
  | false => exact all
  | true =>
      intro keys node found
      exact all keys node (nodeAt_asOptional_iff.mp found)

theorem everywhere_markList {tree : Tree} (isList : Bool) (all : Everywhere holds tree) :
    Everywhere holds (Synthesis.markList isList tree) := by
  cases isList with
  | false => exact all
  | true => exact everywhere_listOf all

/-- The members of an object are judged one by one, each together with what stands below it. -/
theorem everywhere_object {members : List (String × Tree)}
    (all : ∀ key value, (key, value) ∈ members →
      holds [key] value ∧ Everywhere (fun keys node => holds (key :: keys) node) value) :
    Everywhere holds (.object members) := by
  intro keys node found
  cases found with
  | member member => exact (all _ _ member).1
  | deeper member found => exact (all _ _ member).2 _ node found

theorem everywhere_single {key : String} {value : Tree} (here : holds [key] value)
    (below : Everywhere (fun keys node => holds (key :: keys) node) value) :
    Everywhere holds (.single key value) := by
  apply everywhere_object
  intro other tree member
  have same : other = key ∧ tree = value := by simpa using member
  rw [same.1, same.2]
  exact ⟨here, below⟩

section Merging

variable (merged : ∀ keys first second, holds keys first → holds keys second →
  holds keys (merge first second))

include merged

theorem everywhere_merge {left right : Tree} (first : Everywhere holds left)
    (second : Everywhere holds right) : Everywhere holds (merge left right) := by
  intro keys node found
  rcases nodeAt_merge found with old | new | ⟨early, late, inLeft, inRight, same⟩
  · exact first keys node old
  · exact second keys node new
  · rw [same]
    exact merged keys early late (first keys early inLeft) (second keys late inRight)

theorem everywhere_foldl_merge {trees : List Tree}
    (all : ∀ tree ∈ trees, Everywhere holds tree) :
    Everywhere holds (trees.foldl merge emptyObject) := by
  refine List.foldlRecOn trees merge everywhere_emptyObject ?_
  intro before first tree member
  exact everywhere_merge merged first (all tree member)

end Merging

end Tree

end ScopedSchema
