import ScopedSchema.Proofs.Tree.Merge
import ScopedSchema.Proofs.Zod.Construction
import ScopedSchema.Tree.Render

/-!
# Leaves and what is printed around them

A merge takes its leaves from its two sides. If the leaves of a tree are put together step by step,
so is what is printed for the tree, with a step for each of its nodes; a nullable node takes none
where the text is nullable already.
-/

namespace ScopedSchema

namespace Tree

/-- Every leaf has the property. -/
inductive AllLeaves (holds : Expr → Prop) : Tree → Prop
  | leaf {expr : Expr} : holds expr → AllLeaves holds (.leaf expr)
  | object {members : List (String × Tree)} : (∀ member ∈ members, AllLeaves holds member.2) →
      AllLeaves holds (.object members)
  | array {elements : List Tree} : (∀ element ∈ elements, AllLeaves holds element) →
      AllLeaves holds (.array elements)
  | optional {inner : Tree} : AllLeaves holds inner → AllLeaves holds (.optional inner)

variable {holds : Expr → Prop}

theorem allLeaves_core_iff (tree : Tree) : AllLeaves holds tree.core ↔ AllLeaves holds tree := by
  induction tree using core.induct with
  | case1 inner induction =>
      rw [core, induction]
      constructor
      · exact AllLeaves.optional
      · intro all
        cases all with
        | optional all => exact all
  | case2 tree plain => rw [core.eq_2 tree plain]

theorem allLeaves_object_iff {members : List (String × Tree)} :
    AllLeaves holds (.object members) ↔ ∀ member ∈ members, AllLeaves holds member.2 := by
  constructor
  · intro all
    cases all with
    | object all => exact all
  · exact AllLeaves.object

theorem allLeaves_array_iff {elements : List Tree} :
    AllLeaves holds (.array elements) ↔ ∀ element ∈ elements, AllLeaves holds element := by
  constructor
  · intro all
    cases all with
    | array all => exact all
  · exact AllLeaves.array

theorem allLeaves_merge {left right : Tree} (first : AllLeaves holds left)
    (second : AllLeaves holds right) : AllLeaves holds (merge left right) := by
  induction first generalizing right with
  | leaf _ =>
      rw [merge_leaf]
      exact second
  | optional _ induction =>
      rw [merge_optional_left]
      apply AllLeaves.optional
      apply induction
      rw [← allLeaves_core_iff, core_dropWrapper, allLeaves_core_iff]
      exact second
  | array all _ =>
      rw [← allLeaves_core_iff] at second ⊢
      rw [core_merge]
      cases inside : right.core with
      | optional inner => exact absurd inside (core_ne_optional right inner)
      | array others =>
          rw [inside, allLeaves_array_iff] at second
          exact AllLeaves.array (List.forall_mem_append.mpr ⟨all, second⟩)
      | leaf expr =>
          rw [inside] at second
          exact second
      | object members =>
          rw [inside] at second
          exact second
  | object all induction =>
      rw [← allLeaves_core_iff] at second ⊢
      rw [core_merge]
      cases inside : right.core with
      | optional inner => exact absurd inside (core_ne_optional right inner)
      | object others =>
          rw [inside, allLeaves_object_iff] at second
          apply AllLeaves.object
          intro member listed
          rcases mem_mergeMembers listed with old | new | ⟨name, one, other, old, new, same⟩
          · exact all member old
          · exact second member new
          · rw [same]
            exact induction (name, one) old (second (name, other) new)
      | leaf expr =>
          rw [inside] at second
          exact second
      | array elements =>
          rw [inside] at second
          exact second

theorem allLeaves_foldl_merge {trees : List Tree} {start : Tree} (first : AllLeaves holds start)
    (all : ∀ tree ∈ trees, AllLeaves holds tree) : AllLeaves holds (trees.foldl merge start) := by
  refine List.foldlRecOn trees merge first ?_
  intro before early tree member
  exact allLeaves_merge early (all tree member)

theorem allLeaves_mergeAll {trees : List Tree} {merged : Tree}
    (found : mergeAll trees = some merged) (all : ∀ tree ∈ trees, AllLeaves holds tree) :
    AllLeaves holds merged := by
  cases trees with
  | nil => cases found
  | cons first rest =>
      rw [List.forall_mem_cons] at all
      rw [← Option.some.inj found]
      exact allLeaves_foldl_merge all.1 all.2

theorem allLeaves_emptyObject : AllLeaves holds emptyObject :=
  AllLeaves.object fun _ member => absurd member List.not_mem_nil

theorem allLeaves_asOptional {tree : Tree} (all : AllLeaves holds tree) :
    AllLeaves holds tree.asOptional := by
  rw [← allLeaves_core_iff, core_asOptional, allLeaves_core_iff]
  exact all

/-! ## Printing -/

/-- Every leaf is put together step by step. -/
def Built (tree : Tree) : Prop := tree.AllLeaves Expr.Built

/-- The tree is printed as a nullable expression. -/
def isNullable : Tree → Bool
  | .optional _ => true
  | .leaf expr => expr.isNullish
  | _ => false

theorem Built.render {tree : Tree} (built : tree.Built) : tree.render.Built := by
  induction tree using render.induct with
  | case1 expr =>
      cases built with
      | leaf built =>
          rw [render_leaf]
          exact built
  | case2 members induction =>
      cases built with
      | object all =>
          rw [render_object]
          exact Expr.built_object (List.forall_mem_map.mpr fun member inside =>
            induction member inside (all member inside))
  | case3 elements induction =>
      cases built with
      | array all =>
          rw [render_array]
          apply Expr.Built.array
          cases found : mergeAll elements with
          | none => exact Expr.built_any
          | some merged => exact induction merged found (allLeaves_mergeAll found all)
  | case4 inner induction =>
      cases built with
      | optional built =>
          rw [render_optional]
          exact (induction built).nullish

theorem isNullish_render {tree : Tree} (built : tree.Built) :
    tree.render.isNullish = tree.isNullable := by
  cases built with
  | leaf built => rw [render_leaf, isNullable]
  | object all =>
      rw [render_object]
      exact Expr.isNullish_object _
  | @array elements all =>
      rw [render_array]
      apply Expr.isNullish_array
      cases found : mergeAll elements with
      | none => exact Expr.built_any.closed
      | some merged => exact (Built.render (allLeaves_mergeAll found all)).closed
  | optional built =>
      rw [render_optional]
      exact Expr.isNullish_nullish _

theorem exists_once_render {tree : Tree} (built : tree.Built) :
    ∃ construction : Construction, construction.Once ∧ construction.expr = tree.render ∧
      construction.isNullish = tree.isNullable := by
  obtain ⟨construction, same⟩ := built.render
  refine ⟨construction.settled, construction.once_settled, ?_, ?_⟩
  · rw [construction.expr_settled, same]
  · rw [construction.isNullish_settled, ← construction.isNullish_expr, same,
      isNullish_render built]

/-- A wrapper adds the suffix exactly where the inner tree is not printed with it. -/
theorem render_optional_eq {inner : Tree} (built : inner.Built) :
    (Tree.optional inner).render =
      if inner.isNullable then inner.render else ⟨inner.render.text ++ ".nullish()"⟩ := by
  rw [render_optional, Expr.nullish, isNullish_render built]
  rfl

end Tree

end ScopedSchema
