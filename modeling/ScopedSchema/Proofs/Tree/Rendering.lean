import Mathlib.Algebra.GroupWithZero.Nat
import ScopedSchema.Proofs.Tree.Absorption

/-!
# Printing grown trees

Repeated elements of an array do not show in print, because the elements are merged before they are
printed and the merge absorbs the repetition. What is left of the changes of a tree, once its arrays
are merged, is the order of object keys, where members may be shuffled.
-/

namespace ScopedSchema

namespace Tree

/-- The tree with the elements of every array merged into one, as they are for printing. -/
def joined : Tree → Tree
  | .leaf expr => .leaf expr
  | .object members => .object (members.map fun entry => (entry.1, joined entry.2))
  | .array elements => .array (match _ : mergeAll elements with
    | none => []
    | some merged => [joined merged])
  | .optional inner => .optional (joined inner)
termination_by tree => tree.size
decreasing_by
  · rename_i member
    have bound := size_le_of_mem_members member
    simp only [size]
    omega
  · rename_i found
    have bound := size_mergeAll_le found
    simp only [size]
    omega
  · simp only [size]
    omega

@[simp] theorem joined_leaf (expr : Expr) : joined (.leaf expr) = .leaf expr := by
  rw [joined]

theorem joined_object (members : List (String × Tree)) :
    joined (.object members) = .object (members.map fun entry => (entry.1, joined entry.2)) := by
  rw [joined]

theorem joined_array (elements : List Tree) :
    joined (.array elements) =
      .array ((mergeAll elements).elim [] fun merged => [joined merged]) := by
  rw [joined]
  split <;> simp_all

theorem joined_optional (inner : Tree) : joined (.optional inner) = .optional (joined inner) := by
  rw [joined]

/-- Joining the elements of arrays does not change what is printed. -/
theorem render_joined (tree : Tree) : tree.joined.render = tree.render := by
  induction tree using render.induct with
  | case1 expr => rw [joined_leaf]
  | case2 members induction =>
      rw [joined_object, render_object, render_object, List.map_map]
      congr 1
      apply List.map_congr_left
      intro entry member
      exact congrArg (Prod.mk entry.1) (induction entry member)
  | case3 elements induction =>
      rw [joined_array, render_array, render_array]
      cases found : mergeAll elements with
      | none => rfl
      | some merged =>
          have alone : mergeAll [merged.joined] = some merged.joined := rfl
          rw [Option.elim_some, Option.elim_some, alone, Option.elim_some, induction merged found]
  | case4 inner induction => rw [joined_optional, render_optional, render_optional, induction]

/-- Joined trees that say the same; if keys may be shuffled, then up to the order of the keys of
each object. -/
inductive Alike (shuffled : Prop) : Tree → Tree → Prop
  | refl (tree : Tree) : Alike shuffled tree tree
  | trans {first second third : Tree} :
      Alike shuffled first second → Alike shuffled second third → Alike shuffled first third
  | listOf {first second : Tree} :
      Alike shuffled first second → Alike shuffled first.listOf second.listOf
  | optional {first second : Tree} :
      Alike shuffled first second → Alike shuffled (.optional first) (.optional second)
  | member {before after : List (String × Tree)} {name : String} {first second : Tree} :
      Alike shuffled first second →
      Alike shuffled (.object (before ++ (name, first) :: after))
        (.object (before ++ (name, second) :: after))
  | shuffle {members others : List (String × Tree)} :
      shuffled → members.Perm others → Alike shuffled (.object members) (.object others)

namespace Alike

variable {shuffled : Prop} {first second : Tree}

theorem symm (alike : Alike shuffled first second) : Alike shuffled second first := by
  induction alike with
  | refl tree => exact refl tree
  | trans _ _ early late => exact trans late early
  | listOf _ induction => exact listOf induction
  | optional _ induction => exact optional induction
  | member _ induction => exact member induction
  | shuffle allowed perm => exact shuffle allowed perm.symm

/-- If the order of keys counts, nothing is left that may differ. -/
theorem eq (alike : Alike False first second) : first = second := by
  induction alike with
  | refl tree => rfl
  | trans _ _ early late => exact early.trans late
  | listOf _ induction => rw [induction]
  | optional _ induction => rw [induction]
  | member _ induction => rw [induction]
  | shuffle never _ => exact never.elim

end Alike

variable {shuffled : Prop}

theorem sizeOfMembers_eq_sum (members : List (String × Tree)) :
    sizeOfMembers members = (members.map fun entry => entry.2.size).sum := by
  induction members with
  | nil => rfl
  | cons entry rest induction =>
      obtain ⟨name, value⟩ := entry
      rw [sizeOfMembers, List.map_cons, List.sum_cons, induction]

theorem Grows.size_le {first second : Tree} (step : Grows shuffled first second) :
    first.size ≤ second.size := by
  induction step with
  | again before block after =>
      simp only [size, sizeOfElements_append]
      omega
  | element _ induction =>
      simp only [size, sizeOfElements_append, sizeOfElements]
      omega
  | member _ induction =>
      simp only [size, sizeOfMembers_eq_sum, List.map_append, List.map_cons, List.sum_append,
        List.sum_cons]
      omega
  | inner _ induction =>
      simp only [size]
      omega
  | shuffle _ perm =>
      simp only [size, sizeOfMembers_eq_sum]
      have same := (perm.map fun entry : String × Tree => entry.2.size).sum_nat
      omega

theorem mergeAll_eq_foldl {elements : List Tree} (more : elements ≠ []) :
    mergeAll elements = some (elements.foldl merge (.leaf .any)) := by
  cases elements with
  | nil => exact absurd rfl more
  | cons first rest => rw [mergeAll, List.foldl_cons, merge_leaf]

theorem size_foldl_le {elements : List Tree} (more : elements ≠ []) :
    (elements.foldl merge (.leaf .any)).size ≤ sizeOfElements elements :=
  size_mergeAll_le (mergeAll_eq_foldl more)

theorem Grown.foldl_start {start start' : Tree} {trees : List Tree}
    (grown : Grown shuffled start start') (distinct : Distinct start)
    (all : ∀ tree ∈ trees, Distinct tree) :
    Grown shuffled (trees.foldl Tree.merge start) (trees.foldl Tree.merge start') :=
  grown.foldl_merge (List.forall₂_same.mpr fun tree _ => Grown.refl tree) distinct all

/-- The merge of the elements absorbs a block that is repeated. -/
theorem grown_foldl_of_again (before block after : List Tree)
    (all : ∀ tree ∈ before ++ block ++ after, Distinct tree) :
    Grown shuffled ((before ++ block ++ after).foldl merge (.leaf .any))
      ((before ++ block ++ (block ++ after)).foldl merge (.leaf .any)) := by
  rw [List.forall_mem_append] at all
  have distinct := distinct_foldl_merge (Distinct.leaf .any) all.1
  obtain ⟨allBefore, allBlock⟩ := List.forall_mem_append.mp all.1
  have start := distinct_foldl_merge (Distinct.leaf .any) allBefore
  have repeated : Grown shuffled _ _ := grown_foldl_merge_again start allBlock
  simp only [List.foldl_append] at distinct ⊢
  exact repeated.foldl_start distinct all.2

theorem grown_foldl_of_element {before after : List Tree} {first second : Tree}
    (grown : Grown shuffled first second)
    (all : ∀ tree ∈ before ++ first :: after, Distinct tree) :
    Grown shuffled ((before ++ first :: after).foldl merge (.leaf .any))
      ((before ++ second :: after).foldl merge (.leaf .any)) := by
  rw [List.forall_mem_append, List.forall_mem_cons] at all
  obtain ⟨allBefore, distinct, allAfter⟩ := all
  have start := distinct_foldl_merge (Distinct.leaf .any) allBefore
  rw [List.foldl_append, List.foldl_append, List.foldl_cons, List.foldl_cons]
  exact ((Grown.refl _).merge grown start distinct).foldl_start (distinct_merge start distinct)
    allAfter

/-- What is alike after each small change is alike after many. -/
theorem alike_joined_of_steps {bound : Nat} (each : ∀ first second : Tree, second.size ≤ bound →
      Distinct first → Grows shuffled first second → Alike shuffled first.joined second.joined)
    {first second : Tree} (small : second.size ≤ bound) (distinct : Distinct first)
    (grown : Grown shuffled first second) : Alike shuffled first.joined second.joined := by
  induction grown with
  | refl => exact Alike.refl _
  | tail earlier step induction =>
      have smaller := induction (Nat.le_trans step.size_le small)
      exact smaller.trans (each _ _ small (Grown.distinct earlier distinct) step)

theorem alike_joined_of_grows {bound : Nat} {first second : Tree} (small : second.size ≤ bound)
    (distinct : Distinct first) (step : Grows shuffled first second) :
    Alike shuffled first.joined second.joined := by
  induction bound generalizing first second with
  | zero =>
      have positive := size_pos second
      omega
  | succ bound induction =>
      have deeper : ∀ {first second : Tree}, second.size ≤ bound → Distinct first →
          Grown shuffled first second → Alike shuffled first.joined second.joined :=
        fun small => alike_joined_of_steps (fun _ _ => induction) small
      cases step with
      | again before block after =>
          cases distinct with
          | array all =>
              rw [joined_array, joined_array]
              by_cases none : before ++ block ++ after = []
              · have empty := List.append_eq_nil_iff.mp none
                rw [none, empty.2, (List.append_eq_nil_iff.mp empty.1).1,
                  (List.append_eq_nil_iff.mp empty.1).2]
                exact Alike.refl _
              · have more : before ++ block ++ (block ++ after) ≠ [] := by
                  intro empty
                  simp_all
                rw [mergeAll_eq_foldl none, mergeAll_eq_foldl more]
                apply Alike.listOf
                have less := size_foldl_le more
                rw [size] at small
                apply deeper (by omega) (distinct_foldl_merge (Distinct.leaf .any) all)
                exact grown_foldl_of_again before block after all
      | @element before after first second step =>
          cases distinct with
          | array all =>
              have more : before ++ second :: after ≠ [] := by simp
              rw [joined_array, joined_array, mergeAll_eq_foldl more, mergeAll_eq_foldl (by simp)]
              apply Alike.listOf
              have less := size_foldl_le more
              rw [size] at small
              apply deeper (by omega) (distinct_foldl_merge (Distinct.leaf .any) all)
              exact grown_foldl_of_element (Grown.single step) all
      | @member before after name first second step =>
          simp only [joined_object, List.map_append, List.map_cons]
          apply Alike.member
          have less : second.size ≤ sizeOfMembers (before ++ (name, second) :: after) :=
            size_le_of_mem_members (List.mem_append_right _ List.mem_cons_self)
          rw [size] at small
          apply induction (by omega) _ step
          exact distinct_of_member distinct
      | @inner first second step =>
          cases distinct with
          | optional distinct =>
              rw [joined_optional, joined_optional]
              apply Alike.optional
              rw [size] at small
              exact induction (by omega) distinct step
      | @shuffle members others allowed perm =>
          rw [joined_object, joined_object]
          exact Alike.shuffle allowed (perm.map _)

/-- Grown trees are alike once their arrays are joined. -/
theorem alike_joined {first second : Tree} (distinct : Distinct first)
    (grown : Grown shuffled first second) : Alike shuffled first.joined second.joined :=
  alike_joined_of_steps (fun _ _ small => alike_joined_of_grows small) (Nat.le_refl second.size)
    distinct grown

theorem render_eq_of_grown {first second : Tree} (distinct : Distinct first)
    (grown : Grown False first second) : first.render = second.render := by
  rw [← render_joined first, (alike_joined distinct grown).eq, render_joined]

end Tree

end ScopedSchema
