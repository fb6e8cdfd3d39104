import ScopedSchema.Proofs.Tree.Displacement
import ScopedSchema.Proofs.Tree.Member

/-!
# What a fold of merges comes to

A fold of merges is nullable as the most nullable of its trees is, and inside its wrappers it comes
to what the last trees of one kind say: the last leaf, the elements of all last arrays, or the
members of all last objects, name by name. What stood before them is gone.
-/

namespace ScopedSchema

namespace Tree

/-- The number of nullable wrappers around the tree. -/
def wrappers : Tree → Nat
  | .optional inner => inner.wrappers + 1
  | _ => 0

theorem wrappers_of_plain {tree : Tree} (plain : ∀ inner, tree ≠ .optional inner) :
    tree.wrappers = 0 := by
  cases tree with
  | optional inner => exact absurd rfl (plain inner)
  | leaf expr => rfl
  | object members => rfl
  | array elements => rfl

theorem wrappers_dropWrapper (tree : Tree) : tree.dropWrapper.wrappers = tree.wrappers - 1 := by
  cases tree <;> rfl

theorem wrappers_mapCore {change : Tree → Tree} (tree : Tree)
    (plain : (change tree.core).wrappers = 0) : (tree.mapCore change).wrappers = tree.wrappers := by
  induction tree using core.induct with
  | case1 wrapped induction =>
      rw [mapCore, wrappers, wrappers, induction plain]
  | case2 tree bare =>
      rw [core.eq_2 tree bare] at plain
      rw [mapCore.eq_2 change tree bare, plain, wrappers_of_plain bare]

theorem wrappers_merge (left right : Tree) :
    (merge left right).wrappers = max left.wrappers right.wrappers := by
  induction left using core.induct generalizing right with
  | case1 wrapped induction =>
      rw [merge_optional_left, wrappers, wrappers, induction, wrappers_dropWrapper]
      omega
  | case2 left plain =>
      rw [wrappers_of_plain plain, Nat.zero_max]
      have bare := core_ne_optional right
      cases left with
      | optional inner => exact absurd rfl (plain inner)
      | leaf expr => rw [merge_leaf]
      | array elements =>
          rw [merge, wrappers_mapCore]
          cases inside : right.core with
          | optional inner => exact absurd inside (bare inner)
          | leaf expr => rfl
          | object members => rfl
          | array others => rfl
      | object members =>
          rw [merge, wrappers_mapCore]
          cases inside : right.core with
          | optional inner => exact absurd inside (bare inner)
          | leaf expr => rfl
          | object others => rfl
          | array elements => rfl

theorem wrappers_foldl_le_iff {trees : List Tree} {start : Tree} {bound : Nat} :
    (trees.foldl merge start).wrappers ≤ bound ↔
      start.wrappers ≤ bound ∧ ∀ tree ∈ trees, tree.wrappers ≤ bound := by
  induction trees generalizing start with
  | nil => simp
  | cons tree rest induction =>
      rw [List.foldl_cons, induction, wrappers_merge, Nat.max_le, List.forall_mem_cons, and_assoc]

theorem wrappers_eq_of_le_iff {first second : Tree}
    (same : ∀ bound, first.wrappers ≤ bound ↔ second.wrappers ≤ bound) :
    first.wrappers = second.wrappers := by
  have shorter := (same second.wrappers).mpr (Nat.le_refl _)
  have longer := (same first.wrappers).mp (Nat.le_refl _)
  exact Nat.le_antisymm shorter longer

/-! ## Kinds -/

theorem kind_merge (left right : Tree) : (merge left right).kind = right.kind := by
  rw [← kind_core, core_merge, ← kind_core right]
  cases left.core <;> cases right.core <;> rfl

theorem core_merge_of_kind_ne {left right : Tree} (different : left.kind ≠ right.kind) :
    (merge left right).core = right.core := by
  rw [← kind_core left, ← kind_core right] at different
  rw [core_merge]
  cases inside : left.core <;> cases inside' : right.core <;> simp_all [mergeCores, kind]

theorem core_merge_of_leaf {right : Tree} (leaf : right.kind = .leaf) (left : Tree) :
    (merge left right).core = right.core := by
  rw [← kind_core right] at leaf
  rw [core_merge]
  cases inside : left.core <;> cases inside' : right.core <;> simp_all [mergeCores, kind]

theorem core_foldl_congr {start start' : Tree} (same : start.core = start'.core)
    (trees : List Tree) : (trees.foldl merge start).core = (trees.foldl merge start').core := by
  induction trees generalizing start start' with
  | nil => exact same
  | cons tree rest induction =>
      apply induction
      rw [core_merge, core_merge, same]

theorem kind_foldl_append (start : Tree) (trees : List Tree) (last : Tree) :
    ((trees ++ [last]).foldl merge start).kind = last.kind := by
  rw [List.foldl_append]
  exact kind_merge _ last

/-- A list ends in a run of trees of one kind, and a tree of another kind stands before the run, if
any does. -/
theorem exists_run {trees : List Tree} (more : trees ≠ []) :
    ∃ before first rest, trees = before ++ first :: rest ∧
      (∀ tree ∈ rest, tree.kind = first.kind) ∧
      ∀ last ∈ before.getLast?, last.kind ≠ first.kind := by
  induction trees with
  | nil => exact absurd rfl more
  | cons tree others induction =>
      by_cases none : others = []
      · exact ⟨[], tree, [], by rw [none]; rfl, by simp, by simp⟩
      · obtain ⟨before, first, rest, split, alike, broken⟩ := induction none
        cases before with
        | nil =>
            by_cases same : tree.kind = first.kind
            · refine ⟨[], tree, first :: rest, by rw [split]; rfl, ?_, by simp⟩
              intro other member
              rcases List.mem_cons.mp member with here | later
              · rw [here, same]
              · rw [alike other later, same]
            · exact ⟨[tree], first, rest, by rw [split]; rfl, alike, by simpa using same⟩
        | cons second before =>
            refine ⟨tree :: second :: before, first, rest, by rw [split]; rfl, alike, ?_⟩
            simpa using broken

/-- What stands before the last run does not count inside the wrappers. -/
theorem core_foldl_of_break {before rest : List Tree} {first : Tree} (start : Tree)
    (filled : before ≠ [])
    (broken : ∀ last ∈ before.getLast?, last.kind ≠ first.kind) :
    ((before ++ first :: rest).foldl merge start).core =
      ((first :: rest).foldl merge (.leaf .any)).core := by
  rw [List.foldl_append, List.foldl_cons, List.foldl_cons, merge_leaf]
  apply core_foldl_congr
  apply core_merge_of_kind_ne
  have split := List.dropLast_append_getLast filled
  rw [← split, kind_foldl_append]
  exact broken _ (List.getLast?_eq_some_getLast filled)

theorem core_foldl_of_run {before run : List Tree} {kind : Kind}
    (broken : ∀ last ∈ before.getLast?, last.kind ≠ kind) (more : run ≠ [])
    (alike : ∀ tree ∈ run, tree.kind = kind) :
    ((before ++ run).foldl merge (.leaf .any)).core = (run.foldl merge (.leaf .any)).core := by
  cases run with
  | nil => exact absurd rfl more
  | cons first rest =>
      rw [List.forall_mem_cons] at alike
      by_cases filled : before = []
      · rw [filled, List.nil_append]
      · rw [← alike.1] at broken
        exact core_foldl_of_break _ filled broken

theorem kind_foldl_of_run {run : List Tree} {kind : Kind} (more : run ≠ [])
    (alike : ∀ tree ∈ run, tree.kind = kind) (start : Tree) :
    (run.foldl merge start).kind = kind := by
  rw [← List.dropLast_append_getLast more, kind_foldl_append]
  exact alike _ (List.getLast_mem more)

/-! ## Runs of one kind -/

/-- The elements of an array, and none of any other tree. -/
def elementsInside (tree : Tree) : List Tree :=
  match tree.core with
  | .array elements => elements
  | _ => []

/-- The members of an object, and none of any other tree. -/
def membersInside (tree : Tree) : List (String × Tree) :=
  match tree.core with
  | .object members => members
  | _ => []

theorem elementsInside_of_core {tree : Tree} {elements : List Tree}
    (inside : tree.core = .array elements) : elementsInside tree = elements := by
  rw [elementsInside, inside]

theorem membersInside_of_core {tree : Tree} {members : List (String × Tree)}
    (inside : tree.core = .object members) : membersInside tree = members := by
  rw [membersInside, inside]

theorem core_merge_of_array {right : Tree} (array : right.kind = .array) (left : Tree) :
    (merge left right).core = .array (elementsInside left ++ elementsInside right) := by
  obtain ⟨elements, inside⟩ := core_eq_array_of_kind array
  rw [core_merge, inside, elementsInside_of_core inside, elementsInside]
  cases left.core <;> rfl

theorem core_merge_of_object {right : Tree} (object : right.kind = .object) (left : Tree) :
    (merge left right).core =
      .object (mergeMembers (membersInside left) (membersInside right)) := by
  obtain ⟨members, inside⟩ := core_eq_object_of_kind object
  rw [core_merge, inside, membersInside_of_core inside, membersInside]
  cases left.core with
  | object others => rfl
  | leaf expr => simp only [mergeCores, mergeMembers]
  | array elements => simp only [mergeCores, mergeMembers]
  | optional inner => simp only [mergeCores, mergeMembers]

theorem core_foldl_of_leaf {first : Tree} (leaf : first.kind = .leaf) (start start' : Tree)
    (rest : List Tree) :
    ((first :: rest).foldl merge start).core = ((first :: rest).foldl merge start').core := by
  have same : (merge start first).core = (merge start' first).core := by
    rw [core_merge_of_leaf leaf, core_merge_of_leaf leaf]
  exact core_foldl_congr same rest

/-- Arrays append. -/
theorem core_foldl_arrays {trees : List Tree} (arrays : ∀ tree ∈ trees, tree.kind = .array)
    (more : trees ≠ []) (start : Tree) :
    (trees.foldl merge start).core =
      .array (elementsInside start ++ trees.flatMap elementsInside) := by
  induction trees generalizing start with
  | nil => exact absurd rfl more
  | cons first rest induction =>
      rw [List.forall_mem_cons] at arrays
      have here := core_merge_of_array arrays.1 start
      rw [List.foldl_cons, List.flatMap_cons]
      cases rest with
      | nil => simpa using here
      | cons second rest =>
          rw [induction arrays.2 (List.cons_ne_nil _ _), elementsInside_of_core here,
            List.append_assoc]

theorem core_core (tree : Tree) : tree.core.core = tree.core :=
  core.eq_2 tree.core (core_ne_optional tree)

/-- Objects merge name by name. -/
theorem core_foldl_objects {trees : List Tree} (objects : ∀ tree ∈ trees, tree.kind = .object)
    (more : trees ≠ []) (start : Tree) :
    ∃ merged, (trees.foldl merge start).core = .object merged ∧
      ∀ name, merged.lookup name = mergeAll (((membersInside start).lookup name).toList ++
        valuesAt name (trees.map core)) := by
  have literal : ∀ tree ∈ trees.map core, ∃ members, tree = .object members := by
    intro tree member
    obtain ⟨other, inside, same⟩ := List.mem_map.mp member
    obtain ⟨members, found⟩ := core_eq_object_of_kind (objects other inside)
    exact ⟨members, by rw [← same, found]⟩
  obtain ⟨merged, folded, found⟩ := foldl_merge_objects literal (membersInside start)
  refine ⟨merged, ?_, found⟩
  have plain : ∀ (trees : List Tree) (start : Tree),
      (trees.foldl merge start).core = ((trees.map core).foldl merge start).core := by
    intro trees
    induction trees with
    | nil => exact fun _ => rfl
    | cons tree rest induction =>
        intro start
        rw [List.map_cons, List.foldl_cons, List.foldl_cons, induction]
        apply core_foldl_congr
        rw [core_merge, core_merge, core_core]
  cases trees with
  | nil => exact absurd rfl more
  | cons first rest =>
      have object := objects first List.mem_cons_self
      have same : (merge start first).core =
          (merge (.object (membersInside start)) first).core := by
        rw [core_merge_of_object object, core_merge_of_object object]
        rfl
      have replaced : ((first :: rest).foldl merge start).core =
          ((first :: rest).foldl merge (.object (membersInside start))).core :=
        core_foldl_congr same rest
      rw [replaced, plain, folded, core.eq_2 _ fun _ => Tree.noConfusion]

end Tree

end ScopedSchema
