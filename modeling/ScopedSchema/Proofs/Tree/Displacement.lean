import ScopedSchema.Proofs.Tree.Distinct
import ScopedSchema.Proofs.Tree.KeyPath

/-!
# Which key paths a fold of merges keeps

Where two trees of different kinds meet, the later one stands and the key paths of the other go.
Of several trees merged from left to right, a key path of one is therefore kept exactly as long as
none of the later ones has a node of another kind above its last key; what came earlier never
matters.
-/

namespace ScopedSchema

namespace Tree

inductive Kind where
  | leaf | object | array
  deriving DecidableEq

/-- What the tree is inside all nullable wrappers. -/
def kind : Tree → Kind
  | .leaf _ => .leaf
  | .object _ => .object
  | .array _ => .array
  | .optional inner => inner.kind

/-- The later tree has a node of another kind than the earlier one where the keys, less one or more
at their end, lead in both through objects alone. -/
inductive Displaces : Tree → Tree → List String → Prop
  | kind {later earlier : Tree} {key : String} {keys : List String} :
      earlier.kind ≠ later.kind → Displaces later earlier (key :: keys)
  | deeper {later earlier value other : Tree} {members others : List (String × Tree)}
      {key : String} {keys : List String} :
      earlier.core = .object members → later.core = .object others →
      (key, value) ∈ members → (key, other) ∈ others →
      Displaces other value keys → Displaces later earlier (key :: keys)

/-- The key path that `part` has is one of `whole` too, and the nodes on it are of the same kinds as
far as only objects are passed. -/
inductive Holds : Tree → Tree → List String → Prop
  | array {whole part : Tree} {elements : List Tree} {keys : List String} :
      whole.core = .array elements → part.kind = .array → KeyPath whole keys →
      Holds whole part keys
  | last {whole part value other : Tree} {members others : List (String × Tree)} {key : String} :
      whole.core = .object members → part.core = .object others →
      (key, value) ∈ members → (key, other) ∈ others → Holds whole part [key]
  | deeper {whole part value other : Tree} {members others : List (String × Tree)} {key : String}
      {keys : List String} :
      whole.core = .object members → part.core = .object others →
      (key, value) ∈ members → (key, other) ∈ others → Holds value other keys →
      Holds whole part (key :: keys)

theorem kind_core (tree : Tree) : tree.core.kind = tree.kind := by
  induction tree using core.induct with
  | case1 inner induction =>
      rw [core, kind]
      exact induction
  | case2 tree plain => rw [core.eq_2 tree plain]

theorem core_eq_object_of_kind {tree : Tree} (same : tree.kind = .object) :
    ∃ members, tree.core = .object members := by
  rw [← kind_core] at same
  cases inside : tree.core with
  | leaf expr => simp [inside, kind] at same
  | array elements => simp [inside, kind] at same
  | optional inner => exact absurd inside (core_ne_optional tree inner)
  | object members => exact ⟨members, rfl⟩

theorem core_eq_array_of_kind {tree : Tree} (same : tree.kind = .array) :
    ∃ elements, tree.core = .array elements := by
  rw [← kind_core] at same
  cases inside : tree.core with
  | leaf expr => simp [inside, kind] at same
  | object members => simp [inside, kind] at same
  | optional inner => exact absurd inside (core_ne_optional tree inner)
  | array elements => exact ⟨elements, rfl⟩

theorem keyPath_core (tree : Tree) {keys : List String} :
    KeyPath tree.core keys ↔ KeyPath tree keys := by
  unfold KeyPath
  simp only [nodeAt_core]

theorem keyPath_object_iff {members : List (String × Tree)} {key : String} {keys : List String} :
    KeyPath (.object members) (key :: keys) ↔
      ∃ value, (key, value) ∈ members ∧ (keys = [] ∨ KeyPath value keys) := by
  unfold KeyPath
  simp only [nodeAt_object_iff]
  constructor
  · intro inside
    rcases inside with ⟨node, value, member, ⟨last, _⟩ | found⟩
    · exact ⟨value, member, Or.inl last⟩
    · exact ⟨value, member, Or.inr ⟨node, found⟩⟩
  · intro inside
    rcases inside with ⟨value, member, last | ⟨node, found⟩⟩
    · exact ⟨value, value, member, Or.inl ⟨last, rfl⟩⟩
    · exact ⟨node, value, member, Or.inr found⟩

theorem keyPath_array_iff {elements : List Tree} {keys : List String} :
    KeyPath (.array elements) keys ↔ ∃ element ∈ elements, KeyPath element keys := by
  unfold KeyPath
  simp only [nodeAt_array_iff]
  constructor
  · intro inside
    rcases inside with ⟨node, element, member, found⟩
    exact ⟨element, member, node, found⟩
  · intro inside
    rcases inside with ⟨element, member, node, found⟩
    exact ⟨node, element, member, found⟩

theorem keys_ne_nil {tree : Tree} {keys : List String} (path : KeyPath tree keys) : keys ≠ [] := by
  intro empty
  rcases path with ⟨node, found⟩
  rw [empty] at found
  exact not_nodeAt_nil tree node found

/-! ## A key path that is held -/

theorem keyPath_of_holds {whole part : Tree} {keys : List String} (held : Holds whole part keys) :
    KeyPath whole keys := by
  induction held with
  | array _ _ path => exact path
  | last inside _ member _ =>
      rw [← keyPath_core, inside, keyPath_object_iff]
      exact ⟨_, member, Or.inl rfl⟩
  | deeper inside _ member _ _ induction =>
      rw [← keyPath_core, inside, keyPath_object_iff]
      exact ⟨_, member, Or.inr induction⟩

/-- A node that is merged in later is held, whatever it meets. -/
theorem holds_merge_right {part : Tree} {keys : List String} (path : KeyPath part keys)
    (left : Tree) : Holds (merge left part) part keys := by
  induction keys generalizing part left with
  | nil => exact absurd rfl (keys_ne_nil path)
  | cons key keys induction =>
      rw [← keyPath_core] at path
      cases inside : part.core with
      | leaf expr =>
          rw [inside] at path
          obtain ⟨node, found⟩ := path
          exact absurd found (not_nodeAt_leaf _ _ _)
      | optional inner => exact absurd inside (core_ne_optional part inner)
      | array elements =>
          rw [inside] at path
          obtain ⟨element, member, path⟩ := keyPath_array_iff.mp path
          obtain ⟨before, whole⟩ := core_merge_array_right inside
          refine Holds.array whole ?_ ?_
          · rw [← kind_core, inside, Tree.kind]
          · rw [← keyPath_core, whole, keyPath_array_iff]
            exact ⟨element, List.mem_append_right before member, path⟩
      | object others =>
          rw [inside] at path
          obtain ⟨other, member, path⟩ := keyPath_object_iff.mp path
          obtain ⟨members, first, whole, placed⟩ := core_merge_object_right inside member
          rcases path with rfl | path
          · exact Holds.last whole inside placed member
          · exact Holds.deeper whole inside placed member (induction path first)

theorem holds_self {tree : Tree} {keys : List String} (path : KeyPath tree keys) :
    Holds tree tree keys := by
  have held := holds_merge_right path (.leaf .any)
  rwa [merge_leaf] at held

theorem kind_eq_of_not_displaces {later earlier : Tree} {key : String} {keys : List String}
    (kept : ¬ Displaces later earlier (key :: keys)) : earlier.kind = later.kind := by
  by_contra different
  exact kept (Displaces.kind different)

theorem core_merge_of_not_displaces {whole part later : Tree}
    {members others : List (String × Tree)} {key : String} {keys : List String}
    (inside : whole.core = .object members) (core : part.core = .object others)
    (kept : ¬ Displaces later part (key :: keys)) :
    ∃ added, later.core = .object added ∧
      (merge whole later).core = .object (mergeMembers members added) := by
  have same := kind_eq_of_not_displaces kept
  rw [← kind_core part, core, Tree.kind] at same
  rcases core_eq_object_of_kind same.symm with ⟨added, laterCore⟩
  refine ⟨added, laterCore, ?_⟩
  rw [core_merge, inside, laterCore, mergeCores]

/-- What is held stays held unless the tree that is merged in displaces it. -/
theorem holds_merge_left {whole part later : Tree} {keys : List String}
    (held : Holds whole part keys) (kept : ¬ Displaces later part keys) :
    Holds (merge whole later) part keys := by
  induction held generalizing later with
  | @array whole part elements keys inside kind path =>
      rcases List.exists_cons_of_ne_nil (keys_ne_nil path) with ⟨key, keys, split⟩
      rw [split] at kept
      have same := kind_eq_of_not_displaces kept
      rcases core_eq_array_of_kind (same ▸ kind) with ⟨others, core⟩
      have merged : (merge whole later).core = .array (elements ++ others) := by
        rw [core_merge, inside, core, mergeCores]
      rw [← keyPath_core, inside] at path
      rcases keyPath_array_iff.mp path with ⟨element, member, path⟩
      apply Holds.array merged kind
      rw [← keyPath_core, merged, keyPath_array_iff]
      exact ⟨element, List.mem_append_left others member, path⟩
  | last inside core member listed =>
      rcases core_merge_of_not_displaces inside core kept with ⟨added, _, merged⟩
      rcases mem_mergeMembers_of_left member with alone | ⟨_, _, together⟩
      · exact Holds.last merged core alone listed
      · exact Holds.last merged core together listed
  | deeper inside core member listed held induction =>
      rcases core_merge_of_not_displaces inside core kept with ⟨added, laterCore, merged⟩
      rcases mem_mergeMembers_of_left member with alone | ⟨second, brought, together⟩
      · exact Holds.deeper merged core alone listed held
      · apply Holds.deeper merged core together listed
        apply induction
        intro displaced
        exact kept (Displaces.deeper core laterCore listed brought displaced)

/-! ## A key path that is lost -/

/-- What displaces a key path of a part displaces it from everything that holds the part. -/
theorem displaces_of_holds {whole part later : Tree} {keys : List String}
    (held : Holds whole part keys) (distinct : Distinct part)
    (displaced : Displaces later part keys) : Displaces later whole keys := by
  induction displaced generalizing whole with
  | @kind later part key keys different =>
      have same : whole.kind = part.kind := by
        cases held with
        | array inside kind _ => rw [kind, ← kind_core, inside, Tree.kind]
        | last inside core _ _ => rw [← kind_core, inside, ← kind_core part, core]; rfl
        | deeper inside core _ _ _ => rw [← kind_core, inside, ← kind_core part, core]; rfl
      rw [← same] at different
      exact Displaces.kind different
  | @deeper later part value other members others key keys core laterCore member listed displaced
      induction =>
      rw [← distinct_core_iff, core] at distinct
      cases distinct with
      | object nodup all =>
          cases held with
          | array _ kind _ =>
              rw [← kind_core, core] at kind
              cases kind
          | last => cases displaced
          | @deeper _ _ first second _ _ _ _ inside core' member' listed' held =>
              rw [core] at core'
              cases core'
              have same := eq_of_mem_of_nodup nodup member listed'
              rw [← same] at held
              exact Displaces.deeper inside laterCore member' listed
                (induction held (all _ member))

theorem not_displaces_array {later earlier : Tree} {elements others : List Tree}
    {keys : List String} (inside : earlier.core = .array elements)
    (laterInside : later.core = .array others) : ¬ Displaces later earlier keys := by
  intro displaced
  cases displaced with
  | kind different =>
      rw [← kind_core, inside, ← kind_core later, laterInside] at different
      exact different rfl
  | deeper core =>
      rw [inside] at core
      cases core

theorem displaces_object_iff {later earlier : Tree} {members others : List (String × Tree)}
    {key : String} {keys : List String} (inside : earlier.core = .object members)
    (laterInside : later.core = .object others) :
    Displaces later earlier (key :: keys) ↔
      ∃ value other, (key, value) ∈ members ∧ (key, other) ∈ others ∧
        Displaces other value keys := by
  constructor
  · intro displaced
    cases displaced with
    | kind different =>
        rw [← kind_core, inside, ← kind_core later, laterInside] at different
        exact absurd rfl different
    | deeper core laterCore member listed displaced =>
        rw [inside] at core
        rw [laterInside] at laterCore
        cases core
        cases laterCore
        exact ⟨_, _, member, listed, displaced⟩
  · intro below
    rcases below with ⟨value, other, member, listed, displaced⟩
    exact Displaces.deeper inside laterInside member listed displaced

/-- A key path of two merged objects is one of the right side, or one of the left side that is not
displaced, provided that this is so for the members they share. -/
theorem keyPath_merge_objects_cases {left right : Tree} {members others : List (String × Tree)}
    {key : String} {keys : List String} (leftCore : left.core = .object members)
    (rightCore : right.core = .object others) (nodup : (members.map Prod.fst).Nodup)
    (nodupOthers : (others.map Prod.fst).Nodup)
    (path : KeyPath (.object (mergeMembers members others)) (key :: keys))
    (shared : ∀ one other, (key, one) ∈ members → (key, other) ∈ others →
      KeyPath (merge one other) keys →
      KeyPath other keys ∨ (KeyPath one keys ∧ ¬ Displaces other one keys)) :
    KeyPath right (key :: keys) ∨
      (KeyPath left (key :: keys) ∧ ¬ Displaces right left (key :: keys)) := by
  obtain ⟨value, member, path⟩ := keyPath_object_iff.mp path
  rw [displaces_object_iff leftCore rightCore, ← keyPath_core right, rightCore,
    ← keyPath_core left, leftCore, keyPath_object_iff, keyPath_object_iff]
  by_cases namesake : ∃ other, (key, other) ∈ others
  · obtain ⟨other, listed⟩ := namesake
    rcases path with last | path
    · exact Or.inl ⟨other, listed, Or.inl last⟩
    · have nodupMerged := names_mergeMembers_nodup nodup nodupOthers
      rcases mem_mergeMembers_of_right listed with alone | ⟨one, inLeft, together⟩
      · rw [eq_of_mem_of_nodup nodupMerged member alone] at path
        exact Or.inl ⟨other, listed, Or.inr path⟩
      · rw [eq_of_mem_of_nodup nodupMerged member together] at path
        rcases shared one other inLeft listed path with later | ⟨earlier, kept⟩
        · exact Or.inl ⟨other, listed, Or.inr later⟩
        · refine Or.inr ⟨⟨one, inLeft, Or.inr earlier⟩, ?_⟩
          intro met
          rcases met with ⟨one', other', inLeft', listed', displaced⟩
          rw [eq_of_mem_of_nodup nodup inLeft' inLeft,
            eq_of_mem_of_nodup nodupOthers listed' listed] at displaced
          exact kept displaced
  · refine Or.inr ⟨⟨value, ?_, path⟩, ?_⟩
    · rcases mem_mergeMembers member with old | new | ⟨name, one, two, _, new, same⟩
      · exact old
      · exact absurd ⟨value, new⟩ namesake
      · simp only [Prod.mk.injEq] at same
        rw [← same.1] at new
        exact absurd ⟨two, new⟩ namesake
    · intro met
      rcases met with ⟨_, other, _, listed, _⟩
      exact namesake ⟨other, listed⟩

theorem keyPath_merge_cases {left right : Tree} {keys : List String} (first : Distinct left)
    (second : Distinct right) (path : KeyPath (merge left right) keys) :
    KeyPath right keys ∨ (KeyPath left keys ∧ ¬ Displaces right left keys) := by
  induction keys generalizing left right with
  | nil => exact absurd rfl (keys_ne_nil path)
  | cons key keys induction =>
      rw [← keyPath_core, core_merge] at path
      generalize leftCore : left.core = old, rightCore : right.core = new at path
      fun_cases mergeCores old new with
      | case1 elements others =>
          obtain ⟨element, member, path⟩ := keyPath_array_iff.mp path
          rcases List.mem_append.mp member with earlier | later
          · refine Or.inr ⟨?_, not_displaces_array leftCore rightCore⟩
            rw [← keyPath_core, leftCore]
            exact keyPath_array_iff.mpr ⟨element, earlier, path⟩
          · left
            rw [← keyPath_core, rightCore]
            exact keyPath_array_iff.mpr ⟨element, later, path⟩
      | case2 members others =>
          rw [← distinct_core_iff, leftCore, distinct_object_iff] at first
          rw [← distinct_core_iff, rightCore, distinct_object_iff] at second
          apply keyPath_merge_objects_cases leftCore rightCore first.1 second.1 path
          intro one other inLeft listed merged
          exact induction (first.2 _ inLeft) (second.2 _ listed) merged
      | case3 =>
          rename_i notArrays notObjects
          rw [mergeCores.eq_3 _ _ notArrays notObjects, ← rightCore, keyPath_core] at path
          exact Or.inl path

/-! ## Folds -/

theorem holds_foldl_merge {part whole : Tree} {keys : List String} {trees : List Tree}
    (held : Holds whole part keys) (kept : ∀ later ∈ trees, ¬ Displaces later part keys) :
    Holds (trees.foldl merge whole) part keys := by
  induction trees generalizing whole with
  | nil => exact held
  | cons tree rest induction =>
      apply induction
      · exact holds_merge_left held (kept tree List.mem_cons_self)
      · exact fun later member => kept later (List.mem_cons_of_mem _ member)

/-- A key path of a fold of merges is that of a tree after which none displaces it. -/
theorem exists_of_keyPath_foldl_merge {trees : List Tree} {start : Tree} {keys : List String}
    (first : Distinct start) (all : ∀ tree ∈ trees, Distinct tree)
    (path : KeyPath (trees.foldl merge start) keys) :
    (KeyPath start keys ∧ ∀ later ∈ trees, ¬ Displaces later start keys) ∨
      ∃ before tree after, trees = before ++ tree :: after ∧ KeyPath tree keys ∧
        ∀ later ∈ after, ¬ Displaces later tree keys := by
  induction trees generalizing start with
  | nil => exact Or.inl ⟨path, fun _ member => absurd member List.not_mem_nil⟩
  | cons tree rest induction =>
      have distinct := all tree List.mem_cons_self
      rcases induction (distinct_merge first distinct)
        (fun later member => all later (List.mem_cons_of_mem _ member)) path with
        ⟨merged, kept⟩ | ⟨before, found, after, same, path, kept⟩
      · rcases keyPath_merge_cases first distinct merged with later | ⟨earlier, here⟩
        · refine Or.inr ⟨[], tree, rest, rfl, later, ?_⟩
          intro other member displaced
          exact kept other member
            (displaces_of_holds (holds_merge_right later start) distinct displaced)
        · refine Or.inl ⟨earlier, List.forall_mem_cons.mpr ⟨here, ?_⟩⟩
          intro other member displaced
          have held := holds_merge_left (holds_self earlier) here
          exact kept other member (displaces_of_holds held first displaced)
      · exact Or.inr ⟨tree :: before, found, after, by rw [same]; rfl, path, kept⟩

theorem keyPath_foldl_merge_iff {trees : List Tree} (all : ∀ tree ∈ trees, Distinct tree)
    {keys : List String} :
    KeyPath (trees.foldl merge emptyObject) keys ↔
      ∃ before tree after, trees = before ++ tree :: after ∧ KeyPath tree keys ∧
        ∀ later ∈ after, ¬ Displaces later tree keys := by
  constructor
  · intro path
    rcases exists_of_keyPath_foldl_merge distinct_emptyObject all path with ⟨empty, _⟩ | found
    · obtain ⟨node, found⟩ := empty
      exact absurd found (not_nodeAt_emptyObject keys node)
    · exact found
  · intro kept
    rcases kept with ⟨before, tree, after, rfl, path, kept⟩
    rw [List.foldl_append, List.foldl_cons]
    exact keyPath_of_holds (holds_foldl_merge (holds_merge_right path _) kept)

end Tree

end ScopedSchema
