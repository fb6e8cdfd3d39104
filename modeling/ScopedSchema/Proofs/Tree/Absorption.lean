import ScopedSchema.Proofs.Tree.Growth
import ScopedSchema.Proofs.Tree.Run
import ScopedSchema.Tree.Render

/-!
# Merging again what is merged already

Merging some trees once more into their own merge changes nothing but that arrays repeat their
elements, and neither does the merge of some trees that stands anywhere among them, except that it
may bring members of objects forward. Merging is not associative, so neither follows tree by tree:
both are seen from the last run of trees of one kind, and for objects again from each name.
-/

namespace ScopedSchema

namespace Tree

variable {shuffled : Prop}

/-! ## Wrappers and cores -/

theorem grown_of_core {first second : Tree} (same : first.wrappers = second.wrappers)
    (grown : Grown shuffled first.core second.core) : Grown shuffled first second := by
  induction first using core.induct generalizing second with
  | case1 wrapped induction =>
      cases second with
      | optional inner =>
          rw [wrappers, wrappers] at same
          exact (induction (Nat.succ.inj same) grown).inner
      | leaf expr => cases same
      | object members => cases same
      | array elements => cases same
  | case2 tree plain =>
      rw [wrappers_of_plain plain] at same
      have plain' : ∀ inner, second ≠ .optional inner := by
        intro inner equal
        rw [equal, wrappers] at same
        cases same
      rw [core.eq_2 tree plain, core.eq_2 second plain'] at grown
      exact grown

/-! ## Values under a name -/

/-- A fold may start with a leaf, which the first tree replaces. -/
theorem eq_foldl_of_mergeAll {start : Option Tree} {trees : List Tree} {merged : Tree}
    (found : mergeAll (start.toList ++ trees) = some merged) :
    merged = trees.foldl merge (start.getD (.leaf .any)) := by
  cases start with
  | some first => exact (Option.some.inj found).symm
  | none =>
      cases trees with
      | nil => cases found
      | cons first rest =>
          rw [Option.getD_none, List.foldl_cons, merge_leaf]
          exact (Option.some.inj found).symm

theorem isSome_mergeAll_iff {trees : List Tree} : (mergeAll trees).isSome = true ↔ trees ≠ [] := by
  cases trees <;> simp [mergeAll]

theorem size_core_le (tree : Tree) : tree.core.size ≤ tree.size := by
  induction tree using core.induct with
  | case1 inner induction =>
      rw [core, size]
      omega
  | case2 tree plain => exact Nat.le_of_eq (congrArg size (core.eq_2 tree plain))

theorem size_pos (tree : Tree) : 0 < tree.size := by
  cases tree <;> grind [size]

theorem size_lt_of_memberOf? {name : String} {tree value : Tree}
    (found : memberOf? name tree.core = some value) : value.size < tree.size := by
  cases inside : tree.core with
  | leaf expr => simp [inside, memberOf?] at found
  | array elements => simp [inside, memberOf?] at found
  | optional inner => exact absurd inside (core_ne_optional tree inner)
  | object members =>
      rw [inside, memberOf?] at found
      have smaller := size_le_of_mem_members (mem_of_lookup found)
      have bound := size_core_le tree
      rw [inside, size] at bound
      omega

/-- Under one name there is less than in all trees together. -/
theorem sizeOfElements_valuesAt_lt (name : String) {trees : List Tree} (more : trees ≠ []) :
    sizeOfElements (valuesAt name (trees.map core)) < sizeOfElements trees := by
  induction trees with
  | nil => exact absurd rfl more
  | cons tree rest induction =>
      have later : sizeOfElements (valuesAt name (rest.map core)) ≤ sizeOfElements rest := by
        by_cases none : rest = []
        · simp [none, valuesAt, sizeOfElements]
        · exact Nat.le_of_lt (induction none)
      have positive := size_pos tree
      rw [List.map_cons, valuesAt, List.filterMap_cons, sizeOfElements]
      rw [valuesAt] at later
      cases found : memberOf? name tree.core with
      | none =>
          simp only
          omega
      | some value =>
          have smaller := size_lt_of_memberOf? found
          simp only [sizeOfElements]
          omega

theorem distinct_of_mem_valuesAt {name : String} {trees : List Tree}
    (all : ∀ tree ∈ trees, Distinct tree) :
    ∀ value ∈ valuesAt name (trees.map core), Distinct value := by
  intro value member
  obtain ⟨tree, inside, found⟩ := List.mem_filterMap.mp member
  obtain ⟨whole, listed, same⟩ := List.mem_map.mp inside
  have distinct : Distinct tree := by
    rw [← same, distinct_core_iff]
    exact all whole listed
  cases tree with
  | object members => exact distinct_of_lookup distinct found
  | leaf expr => cases found
  | array elements => cases found
  | optional inner => cases found

/-! ## All trees once more -/

theorem names_foldl_merge {trees : List Tree} {start : Tree}
    (all : ∀ tree ∈ trees, tree.kind = .object ∧ Distinct tree ∧
      ∀ name ∈ (membersInside tree).map Prod.fst, name ∈ (membersInside start).map Prod.fst) :
    (membersInside (trees.foldl merge start)).map Prod.fst =
      (membersInside start).map Prod.fst := by
  induction trees generalizing start with
  | nil => rfl
  | cons tree rest induction =>
      rw [List.forall_mem_cons] at all
      obtain ⟨⟨object, distinct, old⟩, later⟩ := all
      obtain ⟨members, inside⟩ := core_eq_object_of_kind object
      have nodup : ((membersInside tree).map Prod.fst).Nodup := by
        rw [← distinct_core_iff, inside, distinct_object_iff] at distinct
        rw [membersInside_of_core inside]
        exact distinct.1
      have names : (membersInside (merge start tree)).map Prod.fst =
          (membersInside start).map Prod.fst := by
        rw [membersInside_of_core (core_merge_of_object object start), names_mergeMembers nodup,
          List.filter_eq_nil_iff.mpr, List.append_nil]
        intro name member
        simpa using old name member
      rw [List.foldl_cons, induction, names]
      rw [names]
      exact later

/-- Where all trees are objects, their merge has the names of each of them. -/
theorem mem_names_foldl_merge {trees : List Tree} (objects : ∀ tree ∈ trees, tree.kind = .object)
    (start : Tree) {tree : Tree} (member : tree ∈ trees) {name : String}
    (listed : name ∈ (membersInside tree).map Prod.fst) :
    name ∈ (membersInside (trees.foldl merge start)).map Prod.fst := by
  have more : trees ≠ [] := List.ne_nil_of_mem member
  obtain ⟨merged, inside, found⟩ := core_foldl_objects objects more start
  obtain ⟨members, same⟩ := core_eq_object_of_kind (objects tree member)
  rw [membersInside_of_core same, ← lookup_isSome_iff] at listed
  obtain ⟨value, here⟩ := Option.isSome_iff_exists.mp listed
  have valued : value ∈ valuesAt name (trees.map core) := by
    apply List.mem_filterMap.mpr
    exact ⟨tree.core, List.mem_map_of_mem member, by rw [same]; exact here⟩
  rw [membersInside_of_core inside, ← lookup_isSome_iff, found, isSome_mergeAll_iff]
  exact List.append_ne_nil_of_right_ne_nil _ (List.ne_nil_of_mem valued)

theorem distinct_of_core {tree : Tree} {members : List (String × Tree)} (distinct : Distinct tree)
    (inside : tree.core = .object members) : Distinct (.object members) := by
  rw [← inside, distinct_core_iff]
  exact distinct

theorem distinct_getD_lookup {tree : Tree} (distinct : Distinct tree) (name : String) :
    Distinct (((membersInside tree).lookup name).getD (.leaf .any)) := by
  cases found : (membersInside tree).lookup name with
  | none => exact Distinct.leaf .any
  | some value =>
      cases inside : tree.core with
      | object members =>
          rw [membersInside_of_core inside] at found
          exact distinct_of_lookup (distinct_of_core distinct inside) found
      | leaf expr => simp [membersInside, inside] at found
      | array elements => simp [membersInside, inside] at found
      | optional inner => simp [membersInside, inside] at found

theorem grown_foldl_objects_again {trees : List Tree} {start : Tree} (distinct : Distinct start)
    (all : ∀ tree ∈ trees, Distinct tree) (more : trees ≠ [])
    (objects : ∀ tree ∈ trees, tree.kind = .object)
    (deeper : ∀ name start, Distinct start →
      Grown shuffled ((valuesAt name (trees.map core)).foldl merge start)
        ((valuesAt name (trees.map core)).foldl merge
          ((valuesAt name (trees.map core)).foldl merge start))) :
    Grown shuffled (trees.foldl merge start).core
      (trees.foldl merge (trees.foldl merge start)).core := by
  obtain ⟨once, inside, found⟩ := core_foldl_objects objects more start
  obtain ⟨twice, inside', found'⟩ := core_foldl_objects objects more (trees.foldl merge start)
  have whole := distinct_of_core (distinct_foldl_merge distinct all) inside
  have names : once.map Prod.fst = twice.map Prod.fst := by
    rw [← membersInside_of_core inside, ← membersInside_of_core inside']
    apply (names_foldl_merge _).symm
    intro tree member
    exact ⟨objects tree member, all tree member,
      fun name listed => mem_names_foldl_merge objects start member listed⟩
  rw [inside, inside']
  apply grown_object (distinct_object_iff.mp whole).1 (Or.inl names)
  intro name early late here here'
  rw [found', membersInside_of_core inside, here] at here'
  rw [found] at here
  rw [eq_foldl_of_mergeAll here', Option.getD_some, eq_foldl_of_mergeAll here]
  exact deeper name _ (distinct_getD_lookup distinct name)

/-- Merging some trees once more into their own merge only repeats array elements. -/
theorem grown_foldl_merge_again {trees : List Tree} {start : Tree} (distinct : Distinct start)
    (all : ∀ tree ∈ trees, Distinct tree) :
    Grown shuffled (trees.foldl merge start) (trees.foldl merge (trees.foldl merge start)) := by
  by_cases none : trees = []
  · rw [none]
    exact Grown.refl _
  apply grown_of_core
  · apply wrappers_eq_of_le_iff
    intro bound
    simp only [wrappers_foldl_le_iff]
    constructor
    · intro bounded
      exact ⟨bounded, bounded.2⟩
    · intro bounded
      exact bounded.1
  obtain ⟨before, first, rest, split, alike, broken⟩ := exists_run none
  by_cases filled : before = []
  · have run : trees = first :: rest := by rw [split, filled, List.nil_append]
    have kinds : ∀ tree ∈ trees, tree.kind = first.kind := by
      rw [run, List.forall_mem_cons]
      exact ⟨rfl, alike⟩
    cases kind : first.kind with
    | leaf =>
        rw [run, core_foldl_of_leaf kind ((first :: rest).foldl merge start) start]
        exact Grown.refl _
    | array =>
        rw [kind] at kinds
        have once := core_foldl_arrays kinds none start
        rw [core_foldl_arrays kinds none (trees.foldl merge start), elementsInside_of_core once,
          once]
        have repeated : Grows shuffled _ _ :=
          Grows.again (elementsInside start) (trees.flatMap elementsInside) []
        simp only [List.append_nil] at repeated
        exact Grown.single repeated
    | object =>
        rw [kind] at kinds
        apply grown_foldl_objects_again distinct all none kinds
        intro name start distinct
        have smaller := sizeOfElements_valuesAt_lt name none
        exact grown_foldl_merge_again distinct (distinct_of_mem_valuesAt all)
  · rw [split, core_foldl_of_break start filled broken,
      core_foldl_of_break _ filled broken]
    exact Grown.refl _
termination_by sizeOfElements trees

/-! ## The merge of all trees among them -/

theorem perm_names_of_isSome {members others : List (String × Tree)}
    (nodup : (members.map Prod.fst).Nodup) (nodup' : (others.map Prod.fst).Nodup)
    (same : ∀ name, (members.lookup name).isSome = true ↔ (others.lookup name).isSome = true) :
    (members.map Prod.fst).Perm (others.map Prod.fst) := by
  apply (List.perm_ext_iff_of_nodup nodup nodup').mpr
  intro name
  rw [← lookup_isSome_iff, ← lookup_isSome_iff, same]

/-- The second of two objects has, under some names, the merge of the values of the first one among
these values. -/
theorem grown_object_absorb (allowed : shuffled) {once twice : List (String × Tree)}
    (nodup : (once.map Prod.fst).Nodup) (nodup' : (twice.map Prod.fst).Nodup)
    {early late : String → List Tree} {between : String → Option Tree}
    (values : ∀ name, once.lookup name = mergeAll (early name ++ late name))
    (values' : ∀ name, twice.lookup name =
      mergeAll (early name ++ ((between name).toList ++ late name)))
    (held : ∀ name, between name = none ∨ between name = once.lookup name)
    (deeper : ∀ name, Grown shuffled ((early name ++ late name).foldl merge (.leaf .any))
      ((early name ++ (early name ++ late name).foldl merge (.leaf .any) :: late name).foldl merge
        (.leaf .any))) :
    Grown shuffled (.object once) (.object twice) := by
  apply grown_object nodup
  · refine Or.inr ⟨allowed, perm_names_of_isSome nodup nodup' ?_⟩
    intro name
    rw [values', isSome_mergeAll_iff]
    rcases held name with absent | here
    · rw [absent, values, isSome_mergeAll_iff]
      rfl
    · rw [here, values, isSome_mergeAll_iff]
      cases merged : mergeAll (early name ++ late name) with
      | none => rfl
      | some value =>
          have filled := isSome_mergeAll_iff.mp (Option.isSome_iff_exists.mpr ⟨value, merged⟩)
          simp [filled]
  · intro name first second found found'
    rcases held name with absent | here
    · rw [values', absent, Option.toList_none, List.nil_append, ← values, found] at found'
      rw [Option.some.inj found']
      exact Grown.refl _
    · rw [values', here, found] at found'
      rw [values] at found
      have start : ∀ {trees : List Tree} {merged : Tree}, mergeAll trees = some merged →
          merged = trees.foldl merge (.leaf .any) := by
        intro trees merged some
        have alone : mergeAll (Option.toList none ++ trees) = Option.some merged := some
        exact eq_foldl_of_mergeAll alone
      rw [start found', Option.toList_some, List.cons_append, List.nil_append, start found]
      exact deeper name

section Absorb

variable {early late : List Tree} {whole : Tree} (allowed : shuffled)
  (all : ∀ tree ∈ early ++ late, Distinct tree)
  (same : whole.core = ((early ++ late).foldl merge (.leaf .any)).core)

include same

theorem grown_arrays_absorb (arrays : ∀ tree ∈ early ++ late, tree.kind = .array)
    (more : early ++ late ≠ []) :
    Grown shuffled ((early ++ late).foldl merge (.leaf .any)).core
      ((early ++ whole :: late).foldl merge (.leaf .any)).core := by
  have once := core_foldl_arrays arrays more (.leaf .any)
  have nothing : elementsInside (.leaf .any) = [] := rfl
  have inside : elementsInside whole = early.flatMap elementsInside ++
      late.flatMap elementsInside := by
    rw [once] at same
    rw [elementsInside_of_core same, nothing, List.nil_append, List.flatMap_append]
  have arrays' : ∀ tree ∈ early ++ whole :: late, tree.kind = .array := by
    rw [List.forall_mem_append] at arrays
    rw [List.forall_mem_append, List.forall_mem_cons, ← kind_core whole, same, once]
    exact ⟨arrays.1, rfl, arrays.2⟩
  rw [once, core_foldl_arrays arrays' (by simp), nothing, List.nil_append, List.nil_append,
    List.flatMap_append, List.flatMap_append, List.flatMap_cons, inside]
  generalize early.flatMap elementsInside = front, late.flatMap elementsInside = back
  have first : Grows shuffled _ _ := Grows.again [] front back
  have second : Grows shuffled _ _ := Grows.again (front ++ front) back []
  simp only [List.nil_append, List.append_nil, List.append_assoc] at first second ⊢
  exact (Grown.single first).trans (Grown.single second)

theorem core_foldl_leaves_absorb (leaves : ∀ tree ∈ early ++ late, tree.kind = .leaf) :
    ((early ++ whole :: late).foldl merge (.leaf .any)).core =
      ((early ++ late).foldl merge (.leaf .any)).core := by
  cases late with
  | nil =>
      rw [List.append_nil] at same leaves ⊢
      cases early with
      | nil =>
          rw [List.nil_append, List.foldl_cons, merge_leaf]
          exact same
      | cons first rest =>
          have leaf : whole.kind = .leaf := by
            rw [← kind_core, same, kind_core]
            exact kind_foldl_of_run (List.cons_ne_nil first rest) leaves _
          rw [List.foldl_append]
          exact (core_merge_of_leaf leaf _).trans same
  | cons first rest =>
      have leaf := leaves first (List.mem_append_right _ List.mem_cons_self)
      rw [List.foldl_append, List.foldl_append, List.foldl_cons]
      exact core_foldl_of_leaf leaf _ _ rest

variable (more : early ++ late ≠ [])
  (deeper : ∀ name,
    Grown shuffled
      ((valuesAt name (early.map core) ++ valuesAt name (late.map core)).foldl merge (.leaf .any))
      ((valuesAt name (early.map core) ++
        (valuesAt name (early.map core) ++ valuesAt name (late.map core)).foldl merge
          (.leaf .any) :: valuesAt name (late.map core)).foldl merge (.leaf .any)))

include allowed all more deeper

theorem grown_objects_absorb (objects : ∀ tree ∈ early ++ late, tree.kind = .object) :
    Grown shuffled ((early ++ late).foldl merge (.leaf .any)).core
      ((early ++ whole :: late).foldl merge (.leaf .any)).core := by
  obtain ⟨once, inside, found⟩ := core_foldl_objects objects more (.leaf .any)
  have objects' : ∀ tree ∈ early ++ whole :: late, tree.kind = .object := by
    rw [List.forall_mem_append] at objects
    rw [List.forall_mem_append, List.forall_mem_cons, ← kind_core whole, same, inside]
    exact ⟨objects.1, rfl, objects.2⟩
  have all' : ∀ tree ∈ early ++ whole :: late, Distinct tree := by
    have distinct : Distinct whole := by
      rw [← distinct_core_iff, same, distinct_core_iff]
      exact distinct_foldl_merge (Distinct.leaf .any) all
    rw [List.forall_mem_append] at all
    rw [List.forall_mem_append, List.forall_mem_cons]
    exact ⟨all.1, distinct, all.2⟩
  obtain ⟨twice, inside', found'⟩ := core_foldl_objects objects' (by simp) (.leaf .any)
  have nodup := (distinct_object_iff.mp (distinct_of_core
    (distinct_foldl_merge (Distinct.leaf .any) all) inside)).1
  have nodup' := (distinct_object_iff.mp (distinct_of_core
    (distinct_foldl_merge (Distinct.leaf .any) all') inside')).1
  have values : ∀ name, once.lookup name =
      mergeAll (valuesAt name (early.map core) ++ valuesAt name (late.map core)) := by
    intro name
    rw [found, List.map_append, valuesAt_append]
    rfl
  have values' : ∀ name, twice.lookup name = mergeAll (valuesAt name (early.map core) ++
      ((once.lookup name).toList ++ valuesAt name (late.map core))) := by
    intro name
    rw [found', List.map_append, List.map_cons, valuesAt_append, valuesAt_cons, same, inside]
    rfl
  rw [inside, inside']
  exact grown_object_absorb allowed nodup nodup' values values' (fun _ => Or.inr rfl) deeper

/-- Among trees of one kind. -/
theorem grown_core_absorb {kind : Kind} (kinds : ∀ tree ∈ early ++ late, tree.kind = kind) :
    Grown shuffled ((early ++ late).foldl merge (.leaf .any)).core
      ((early ++ whole :: late).foldl merge (.leaf .any)).core := by
  cases kind with
  | leaf =>
      rw [core_foldl_leaves_absorb same kinds]
      exact Grown.refl _
  | array => exact grown_arrays_absorb same kinds more
  | object => exact grown_objects_absorb allowed all same more deeper kinds

end Absorb

/-- Inside the last run of trees of one kind. -/
theorem grown_core_absorb_run (allowed : shuffled) {before front late : List Tree} {kind : Kind}
    (all : ∀ tree ∈ before ++ (front ++ late), Distinct tree)
    (broken : ∀ last ∈ before.getLast?, last.kind ≠ kind) (more : front ++ late ≠ [])
    (kinds : ∀ tree ∈ front ++ late, tree.kind = kind)
    (deeper : ∀ name,
      Grown shuffled
        ((valuesAt name (front.map core) ++ valuesAt name (late.map core)).foldl merge (.leaf .any))
        ((valuesAt name (front.map core) ++
          (valuesAt name (front.map core) ++ valuesAt name (late.map core)).foldl merge
            (.leaf .any) :: valuesAt name (late.map core)).foldl merge (.leaf .any))) :
    Grown shuffled ((before ++ (front ++ late)).foldl merge (.leaf .any)).core
      ((before ++ (front ++ (before ++ (front ++ late)).foldl merge (.leaf .any) :: late)).foldl
        merge (.leaf .any)).core := by
  have reduced : ((before ++ (front ++ late)).foldl merge (.leaf .any)).core =
      ((front ++ late).foldl merge (.leaf .any)).core :=
    core_foldl_of_run broken more kinds
  generalize (before ++ (front ++ late)).foldl merge (.leaf .any) = whole at reduced ⊢
  have kinds' : ∀ tree ∈ front ++ whole :: late, tree.kind = kind := by
    have same : whole.kind = kind := by
      rw [← kind_core, reduced, kind_core]
      exact kind_foldl_of_run more kinds _
    rw [List.forall_mem_append] at kinds
    rw [List.forall_mem_append, List.forall_mem_cons]
    exact ⟨kinds.1, same, kinds.2⟩
  rw [core_foldl_of_run broken (by simp) kinds', reduced]
  have distinct := (List.forall_mem_append.mp all).2
  exact grown_core_absorb allowed distinct reduced more deeper kinds

/-- The merge of some trees may stand anywhere among them: it repeats array elements and brings
members of objects forward. -/
theorem grown_foldl_merge_absorb (allowed : shuffled) {early late : List Tree}
    (all : ∀ tree ∈ early ++ late, Distinct tree) :
    Grown shuffled ((early ++ late).foldl merge (.leaf .any))
      ((early ++ (early ++ late).foldl merge (.leaf .any) :: late).foldl merge (.leaf .any)) := by
  by_cases none : early ++ late = []
  · rw [none, (List.append_eq_nil_iff.mp none).1, (List.append_eq_nil_iff.mp none).2]
    exact Grown.refl _
  apply grown_of_core
  · apply wrappers_eq_of_le_iff
    intro bound
    simp only [wrappers_foldl_le_iff, List.forall_mem_append, List.forall_mem_cons]
    tauto
  obtain ⟨before, first, rest, split, alike, broken⟩ := exists_run none
  -- The merge stands inside the last run, or before a break that hides it.
  have inside : ∀ front, early = before ++ front → first :: rest = front ++ late →
      Grown shuffled ((early ++ late).foldl merge (.leaf .any)).core
        ((early ++ (early ++ late).foldl merge (.leaf .any) :: late).foldl merge
          (.leaf .any)).core := by
    intro front same run
    have more : front ++ late ≠ [] := by
      rw [← run]
      exact List.cons_ne_nil first rest
    have kinds : ∀ tree ∈ front ++ late, tree.kind = first.kind := by
      rw [← run, List.forall_mem_cons]
      exact ⟨rfl, alike⟩
    have distinct : ∀ tree ∈ before ++ (front ++ late), Distinct tree := by
      rw [← List.append_assoc, ← same]
      exact all
    have deeper := fun name =>
      have smaller : sizeOfElements (valuesAt name (front.map core) ++
          valuesAt name (late.map core)) < sizeOfElements (early ++ late) := by
        have less := sizeOfElements_valuesAt_lt name more
        rw [List.map_append, valuesAt_append] at less
        rw [same, List.append_assoc, sizeOfElements_append before]
        omega
      have values : ∀ value ∈ valuesAt name (front.map core) ++ valuesAt name (late.map core),
          Distinct value := by
        rw [← valuesAt_append, ← List.map_append]
        exact distinct_of_mem_valuesAt (List.forall_mem_append.mp distinct).2
      grown_foldl_merge_absorb allowed values
    rw [same, List.append_assoc, List.append_assoc]
    exact grown_core_absorb_run allowed distinct broken more kinds deeper
  rcases List.append_eq_append_iff.mp split with ⟨others, same, split'⟩ | ⟨front, same, run⟩
  · by_cases filled : others = []
    · rw [filled, List.append_nil] at same
      rw [filled, List.nil_append] at split'
      apply inside []
      · rw [same, List.append_nil]
      · rw [split', List.nil_append]
    · have hidden : ∀ front : List Tree, ((front ++ late).foldl merge (.leaf .any)).core =
          ((first :: rest).foldl merge (.leaf .any)).core := by
        intro front
        rw [split', ← List.append_assoc]
        apply core_foldl_of_break _ (List.append_ne_nil_of_right_ne_nil front filled)
        intro last member
        apply broken
        rw [same]
        rw [List.getLast?_append_of_ne_nil _ filled] at member ⊢
        exact member
      rw [List.append_cons early, hidden, hidden]
      exact Grown.refl _
  · exact inside front same run
termination_by sizeOfElements (early ++ late)

/-- Among objects, their merge may also lack some of the names. -/
theorem grown_foldl_merge_absorb_part (allowed : shuffled) {early late part : List Tree}
    (objects : ∀ tree ∈ early ++ late, ∃ members, tree = .object members)
    (objects' : ∀ tree ∈ part, ∃ members, tree = .object members)
    (all : ∀ tree ∈ early ++ late, Distinct tree) (all' : ∀ tree ∈ part, Distinct tree)
    (names : ∀ name, valuesAt name part = [] ∨
      valuesAt name part = valuesAt name (early ++ late)) :
    Grown shuffled ((early ++ late).foldl merge emptyObject)
      ((early ++ part.foldl merge emptyObject :: late).foldl merge emptyObject) := by
  obtain ⟨once, folded, found⟩ := foldl_merge_objects objects []
  obtain ⟨inner, folded', found'⟩ := foldl_merge_objects objects' []
  have between : ∀ tree ∈ early ++ .object inner :: late, ∃ members, tree = .object members := by
    rw [List.forall_mem_append] at objects
    rw [List.forall_mem_append, List.forall_mem_cons]
    exact ⟨objects.1, ⟨inner, rfl⟩, objects.2⟩
  have distinct : Distinct (.object inner) := by
    have merged := distinct_foldl_merge distinct_emptyObject all'
    rw [emptyObject, folded'] at merged
    exact merged
  have all'' : ∀ tree ∈ early ++ .object inner :: late, Distinct tree := by
    rw [List.forall_mem_append] at all
    rw [List.forall_mem_append, List.forall_mem_cons]
    exact ⟨all.1, distinct, all.2⟩
  obtain ⟨twice, folded'', found''⟩ := foldl_merge_objects between []
  have merged := distinct_foldl_merge distinct_emptyObject all
  have merged' := distinct_foldl_merge distinct_emptyObject all''
  rw [emptyObject] at merged merged' ⊢
  rw [folded', folded, folded'']
  rw [folded] at merged
  rw [folded''] at merged'
  have values : ∀ name, once.lookup name =
      mergeAll (valuesAt name early ++ valuesAt name late) := by
    intro name
    rw [found, valuesAt_append]
    rfl
  have values' : ∀ name, twice.lookup name =
      mergeAll (valuesAt name early ++ ((inner.lookup name).toList ++ valuesAt name late)) := by
    intro name
    rw [found'', valuesAt_append, valuesAt_cons]
    rfl
  apply grown_object_absorb allowed (distinct_object_iff.mp merged).1
    (distinct_object_iff.mp merged').1 values values'
  · intro name
    rw [found, found']
    rcases names name with none | same
    · rw [none]
      exact Or.inl rfl
    · rw [same]
      exact Or.inr rfl
  · intro name
    apply grown_foldl_merge_absorb allowed
    intro value member
    rw [← valuesAt_append] at member
    obtain ⟨tree, listed, here⟩ := List.mem_filterMap.mp member
    obtain ⟨members, same⟩ := objects tree listed
    have whole := all tree listed
    rw [same] at here whole
    exact distinct_of_lookup whole here

end Tree

end ScopedSchema
