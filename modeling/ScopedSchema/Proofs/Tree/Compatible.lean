import ScopedSchema.Proofs.Tree.Run

/-!
# Merging compatible trees

Two trees are compatible if no node of one meets a node of another kind of the other. Merging such
trees drops nothing but the texts of earlier leaves, so it does not matter which of three trees are
merged first, and every key path of either side is kept. How nullable a merge is does not depend on
that at all.
-/

namespace ScopedSchema

namespace Tree

/-- Wherever both trees lead through objects alone, wrappers aside, they have nodes of one kind. -/
inductive Compatible : Tree → Tree → Prop
  | leaves {left right : Tree} {expr other : Expr} :
      left.core = .leaf expr → right.core = .leaf other → Compatible left right
  | arrays {left right : Tree} {elements others : List Tree} :
      left.core = .array elements → right.core = .array others → Compatible left right
  | objects {left right : Tree} {members others : List (String × Tree)} :
      left.core = .object members → right.core = .object others →
      (∀ entry ∈ members, ∀ other ∈ others, entry.1 = other.1 → Compatible entry.2 other.2) →
      Compatible left right

/-- The keys lead to a node through objects alone, wrappers aside. The keys are never empty. -/
inductive ObjectPath : Tree → List String → Prop
  | last {tree value : Tree} {members : List (String × Tree)} {key : String} :
      tree.core = .object members → (key, value) ∈ members → ObjectPath tree [key]
  | deeper {tree value : Tree} {members : List (String × Tree)} {key : String}
      {keys : List String} :
      tree.core = .object members → (key, value) ∈ members → ObjectPath value keys →
      ObjectPath tree (key :: keys)

/-! ## Wrappers -/

theorem eq_of_core_of_wrappers {first second : Tree} (inside : first.core = second.core)
    (wrapped : first.wrappers = second.wrappers) : first = second := by
  induction first using core.induct generalizing second with
  | case1 inner induction =>
      cases second with
      | optional other =>
          simp only [core, wrappers, Nat.add_right_cancel_iff] at inside wrapped
          rw [induction inside wrapped]
      | _ => simp [wrappers] at wrapped
  | case2 first plain =>
      rw [wrappers_of_plain plain] at wrapped
      cases second with
      | optional other => simp [wrappers] at wrapped
      | _ => rwa [core.eq_2 first plain] at inside

theorem wrappers_core (tree : Tree) : tree.core.wrappers = 0 :=
  wrappers_of_plain (core_ne_optional tree)

/-- All wrappers may be removed before the merge or after it. -/
theorem core_merge_eq_merge_core (left right : Tree) :
    (merge left right).core = merge left.core right.core := by
  have bare : (merge left.core right.core).wrappers = (merge left right).core.wrappers := by
    rw [wrappers_merge, wrappers_core, wrappers_core, wrappers_core, Nat.max_self]
  refine eq_of_core_of_wrappers ?_ bare.symm
  rw [core_core, core_merge, core_merge, core_core, core_core]

/-! ## Three objects -/

theorem eraseEntry_of_absent {name : String} {members : List (String × Tree)}
    (absent : members.lookup name = none) : eraseEntry name members = members := by
  apply List.eraseP_of_forall_not
  intro entry member same
  have different := List.lookup_eq_none_iff.mp absent entry member
  rw [beq_iff_eq] at same
  simp [same] at different

/-- The first member takes its namesake away from the right side, if it has one there. -/
theorem mergeMembers_cons (name : String) (value : Tree) (rest right : List (String × Tree)) :
    mergeMembers ((name, value) :: rest) right =
      (name, (right.lookup name).elim value (merge value)) ::
        mergeMembers rest (eraseEntry name right) := by
  rw [mergeMembers]
  cases found : right.lookup name with
  | some other => rfl
  | none =>
      rw [eraseEntry_of_absent found]
      rfl

/-- A name is erased from a merge by erasing it from both sides. -/
theorem eraseEntry_mergeMembers (name : String) (left right : List (String × Tree)) :
    eraseEntry name (mergeMembers left right) =
      mergeMembers (eraseEntry name left) (eraseEntry name right) := by
  induction left generalizing right with
  | nil =>
      have empty : eraseEntry name [] = [] := rfl
      rw [empty, mergeMembers, mergeMembers]
  | cons entry rest induction =>
      obtain ⟨key, value⟩ := entry
      by_cases here : name = key
      · have first : ∀ (current : Tree) (others : List (String × Tree)),
            eraseEntry name ((key, current) :: others) = others := by
          intro current others
          simp [eraseEntry, here]
        rw [mergeMembers_cons, first, first, here]
      · have passed : ∀ (current : Tree) (others : List (String × Tree)),
            eraseEntry name ((key, current) :: others) =
              (key, current) :: eraseEntry name others := by
          intro current others
          simp [eraseEntry, Ne.symm here]
        have swapped : eraseEntry key (eraseEntry name right) =
            eraseEntry name (eraseEntry key right) := by
          apply List.eraseP_comm
          intro other _
          by_cases same : other.1 = name
          · simp [same, here]
          · simp [same]
        rw [mergeMembers_cons, passed, passed, mergeMembers_cons, induction, swapped,
          lookup_eraseEntry_of_ne (Ne.symm here)]

/-- Members merge in either order as long as the values of each name do. -/
theorem mergeMembers_assoc {left middle right : List (String × Tree)}
    (each : ∀ name first second third, (name, first) ∈ left → (name, second) ∈ middle →
      (name, third) ∈ right → merge (merge first second) third = merge first (merge second third)) :
    mergeMembers (mergeMembers left middle) right =
      mergeMembers left (mergeMembers middle right) := by
  induction left generalizing middle right with
  | nil => rw [mergeMembers, mergeMembers]
  | cons entry rest induction =>
      obtain ⟨name, first⟩ := entry
      have behind : mergeMembers (mergeMembers rest (eraseEntry name middle))
            (eraseEntry name right) =
          mergeMembers rest (mergeMembers (eraseEntry name middle) (eraseEntry name right)) := by
        apply induction
        intro key one two three inLeft inMiddle inRight
        exact each key one two three (List.mem_cons_of_mem _ inLeft)
          (mem_of_mem_eraseEntry inMiddle) (mem_of_mem_eraseEntry inRight)
      rw [mergeMembers_cons, mergeMembers_cons, mergeMembers_cons, lookup_mergeMembers,
        eraseEntry_mergeMembers, behind]
      congr 2
      cases inMiddle : middle.lookup name with
      | none => cases right.lookup name <;> rfl
      | some second =>
          cases inRight : right.lookup name with
          | none => rfl
          | some third =>
              exact each name first second third List.mem_cons_self (mem_of_lookup inMiddle)
                (mem_of_lookup inRight)

/-! ## Compatible trees -/

theorem Compatible.exists_elements {left right : Tree} {elements : List Tree}
    (compatible : Compatible left right) (inside : left.core = .array elements) :
    ∃ others, right.core = .array others := by
  cases compatible with
  | leaves first _ => simp [inside] at first
  | arrays _ second => exact ⟨_, second⟩
  | objects first _ _ => simp [inside] at first

theorem Compatible.exists_members {left right : Tree} {members : List (String × Tree)}
    (compatible : Compatible left right) (inside : left.core = .object members) :
    ∃ others, right.core = .object others ∧
      ∀ entry ∈ members, ∀ other ∈ others, entry.1 = other.1 → Compatible entry.2 other.2 := by
  cases compatible with
  | leaves first _ => simp [inside] at first
  | arrays first _ => simp [inside] at first
  | objects first second each =>
      rw [inside, Tree.object.injEq] at first
      exact ⟨_, second, first ▸ each⟩

/-- Wrappers never make a difference to the order of merges. -/
theorem merge_assoc_of_cores {first second third : Tree}
    (cores : mergeCores (mergeCores first.core second.core) third.core =
      mergeCores first.core (mergeCores second.core third.core)) :
    merge (merge first second) third = merge first (merge second third) := by
  apply eq_of_core_of_wrappers
  · simp only [core_merge, cores]
  · simp only [wrappers_merge, Nat.max_assoc]

theorem merge_assoc_of_compatible {first second third : Tree}
    (early : Compatible first second) (late : Compatible second third)
    (outer : Compatible first third) :
    merge (merge first second) third = merge first (merge second third) := by
  induction early generalizing third with
  | leaves inside inside' =>
      apply merge_assoc_of_cores
      rw [inside, inside']
      rfl
  | arrays inside inside' =>
      obtain ⟨last, inside''⟩ := late.exists_elements inside'
      apply merge_assoc_of_cores
      simp only [inside, inside', inside'', mergeCores, List.append_assoc]
  | objects inside inside' _ induction =>
      obtain ⟨last, inside'', later⟩ := late.exists_members inside'
      obtain ⟨_, same, around⟩ := outer.exists_members inside
      rw [inside'', Tree.object.injEq] at same
      subst same
      apply merge_assoc_of_cores
      simp only [inside, inside', inside'', mergeCores, Tree.object.injEq]
      apply mergeMembers_assoc
      intro name one two three inFirst inSecond inThird
      exact induction (name, one) inFirst (name, two) inSecond rfl
        (later (name, two) inSecond (name, three) inThird rfl)
        (around (name, one) inFirst (name, three) inThird rfl)

theorem objectPath_cons_iff {tree : Tree} {key : String} {keys : List String} :
    ObjectPath tree (key :: keys) ↔
      ∃ members value, tree.core = .object members ∧ (key, value) ∈ members ∧
        (keys = [] ∨ ObjectPath value keys) := by
  constructor
  · intro path
    cases path with
    | last inside member => exact ⟨_, _, inside, member, Or.inl rfl⟩
    | deeper inside member path => exact ⟨_, _, inside, member, Or.inr path⟩
  · intro path
    rcases path with ⟨members, value, inside, member, rfl | path⟩
    · exact ObjectPath.last inside member
    · exact ObjectPath.deeper inside member path

theorem not_objectPath_nil (tree : Tree) : ¬ ObjectPath tree [] := by
  intro path
  cases path

/-- What the merge of two namesakes has exactly if one of them has it, the merged members have exactly
if one of the sides has it. -/
theorem exists_mem_mergeMembers_iff {Has : Tree → Prop} {left right : List (String × Tree)}
    {key : String} (each : ∀ value other, (key, value) ∈ left → (key, other) ∈ right →
      (Has (merge value other) ↔ Has value ∨ Has other)) :
    (∃ value, (key, value) ∈ mergeMembers left right ∧ Has value) ↔
      (∃ value, (key, value) ∈ left ∧ Has value) ∨ ∃ value, (key, value) ∈ right ∧ Has value := by
  constructor
  · intro inside
    rcases inside with ⟨value, member, has⟩
    rcases mem_mergeMembers member with old | new | ⟨name, first, second, old, new, same⟩
    · exact Or.inl ⟨value, old, has⟩
    · exact Or.inr ⟨value, new, has⟩
    · rw [Prod.mk.injEq] at same
      rcases same with ⟨rfl, rfl⟩
      rcases (each first second old new).mp has with has | has
      · exact Or.inl ⟨first, old, has⟩
      · exact Or.inr ⟨second, new, has⟩
  · intro inside
    rcases inside with ⟨value, old, has⟩ | ⟨other, new, has⟩
    · rcases @mem_mergeMembers_of_left left right key value old with alone | ⟨other, new, merged⟩
      · exact ⟨value, alone, has⟩
      · exact ⟨_, merged, (each value other old new).mpr (Or.inl has)⟩
    · rcases @mem_mergeMembers_of_right left right key other new with alone | ⟨value, old, merged⟩
      · exact ⟨other, alone, has⟩
      · exact ⟨_, merged, (each value other old new).mpr (Or.inr has)⟩

theorem objectPath_merge_iff {left right : Tree} (compatible : Compatible left right)
    (keys : List String) :
    ObjectPath (merge left right) keys ↔ ObjectPath left keys ∨ ObjectPath right keys := by
  induction compatible generalizing keys with
  | leaves inside inside' =>
      cases keys <;>
        simp [not_objectPath_nil, objectPath_cons_iff, core_merge, inside, inside', mergeCores]
  | arrays inside inside' =>
      cases keys <;>
        simp [not_objectPath_nil, objectPath_cons_iff, core_merge, inside, inside', mergeCores]
  | @objects left right members others inside inside' _ induction =>
      cases keys with
      | nil => simp only [not_objectPath_nil, or_self]
      | cons key keys =>
          simp only [objectPath_cons_iff, core_merge, inside, inside', mergeCores,
            Tree.object.injEq, exists_and_left, exists_eq_left']
          apply exists_mem_mergeMembers_iff
          intro value other old new
          rw [induction (key, value) old (key, other) new rfl keys, or_or_distrib_left]

/-- Compatible trees merge in either order, and into exactly the key paths of both. Of all trees, the
merge is as nullable as the more nullable side, and otherwise the merge of what is inside. -/
theorem merge_assoc_lossless :
    (∀ first second third : Tree,
      Compatible first second → Compatible second third → Compatible first third →
        merge (merge first second) third = merge first (merge second third)) ∧
    (∀ left right : Tree, Compatible left right → ∀ keys,
      ObjectPath (merge left right) keys ↔ ObjectPath left keys ∨ ObjectPath right keys) ∧
    ∀ left right : Tree,
      (merge left right).wrappers = max left.wrappers right.wrappers ∧
        (merge left right).core = merge left.core right.core := by
  refine ⟨?_, ?_, ?_⟩
  · intro first second third early late outer
    exact merge_assoc_of_compatible early late outer
  · intro left right compatible keys
    exact objectPath_merge_iff compatible keys
  · intro left right
    exact ⟨wrappers_merge left right, core_merge_eq_merge_core left right⟩

/-- A leaf that meets objects is not compatible with them: it takes away what was merged before. -/
example :
    merge (merge (single "id" (.leaf .string)) (.leaf .any)) (single "name" (.leaf .string)) =
        .object [("name", .leaf .string)] ∧
      merge (single "id" (.leaf .string)) (merge (.leaf .any) (single "name" (.leaf .string))) =
        .object [("id", .leaf .string), ("name", .leaf .string)] :=
  ⟨rfl, rfl⟩

/-- Posts that may be absent, with a title and tags. -/
def titledTree : Tree :=
  .optional (.object [("title", .leaf .string), ("tags", .array [.leaf .string])])

/-- Posts with other tags, which may be absent, and an author. -/
def taggedTree : Tree :=
  .object [("tags", .optional (.array [.leaf .number])),
    ("author", .object [("id", .leaf .string)])]

/-- Posts with an author who may be absent, and another title. -/
def authoredTree : Tree :=
  .object [("author", .optional (.object [("name", .leaf .string)])), ("title", .leaf .number)]

theorem compatible_titledTree_taggedTree : Compatible titledTree taggedTree := by
  refine Compatible.objects rfl rfl ?_
  simpa using Compatible.arrays rfl rfl

theorem compatible_taggedTree_authoredTree : Compatible taggedTree authoredTree := by
  refine Compatible.objects rfl rfl ?_
  simpa using Compatible.objects rfl rfl (by simp)

theorem compatible_titledTree_authoredTree : Compatible titledTree authoredTree := by
  refine Compatible.objects rfl rfl ?_
  simpa using Compatible.leaves rfl rfl

/-- Each of the three brings something that the others do not have. -/
theorem merge_assoc_lossless_posts :
    Compatible titledTree taggedTree ∧ Compatible taggedTree authoredTree ∧
      Compatible titledTree authoredTree ∧
      merge (merge titledTree taggedTree) authoredTree =
        merge titledTree (merge taggedTree authoredTree) ∧
      merge titledTree (merge taggedTree authoredTree) =
        .optional (.object [("title", .leaf .number),
          ("tags", .optional (.array [.leaf .string, .leaf .number])),
          ("author", .optional (.object [("id", .leaf .string), ("name", .leaf .string)]))]) ∧
      ObjectPath (merge taggedTree authoredTree) ["author", "id"] ∧
      (merge titledTree taggedTree).wrappers = 1 ∧
      (merge titledTree taggedTree).core = merge titledTree.core taggedTree.core := by
  have early := compatible_titledTree_taggedTree
  have late := compatible_taggedTree_authoredTree
  have outer := compatible_titledTree_authoredTree
  obtain ⟨assoc, paths, wrapped⟩ := merge_assoc_lossless
  have author : ObjectPath taggedTree ["author", "id"] :=
    ObjectPath.deeper rfl (List.mem_cons_of_mem _ List.mem_cons_self)
      (ObjectPath.last rfl List.mem_cons_self)
  refine ⟨early, late, outer, assoc _ _ _ early late outer, rfl, ?_, ?_⟩
  · exact (paths _ _ late _).mpr (Or.inl author)
  · exact wrapped titledTree taggedTree

end Tree

end ScopedSchema
