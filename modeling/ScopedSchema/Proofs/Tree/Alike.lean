import ScopedSchema.Proofs.Tree.Rendering

/-!
# Lists of trees that merge alike

Trees are merged before they are printed, so two lists of trees say the same if their merges are
alike. They still do with the same name or the same array around every tree: a merge of objects goes
on below their one name, and the elements of an array are joined by merging them.
-/

namespace ScopedSchema

namespace Tree

variable {shuffled : Prop}

theorem foldl_merge_single (key : String) (trees : List Tree) (start : Tree) :
    (trees.map (single key)).foldl merge (single key start) =
      single key (trees.foldl merge start) := by
  induction trees generalizing start with
  | nil => rfl
  | cons tree rest induction =>
      have here : merge (single key start) (single key tree) = single key (merge start tree) := by
        simp [single, merge_object_object, mergeMembers, eraseEntry]
      rw [List.map_cons, List.foldl_cons, List.foldl_cons, here, induction]

theorem foldl_merge_listOf (trees elements : List Tree) :
    (trees.map listOf).foldl merge (.array elements) = .array (elements ++ trees) := by
  induction trees generalizing elements with
  | nil => rw [List.map_nil, List.foldl_nil, List.append_nil]
  | cons tree rest induction =>
      rw [List.map_cons, List.foldl_cons, listOf, merge_array_array, induction, List.append_assoc]
      rfl

/-- Both lists have trees, and their merges are alike. -/
structure MergeAlike (shuffled : Prop) (trees trees' : List Tree) : Prop where
  filled : trees ≠ []
  filled' : trees' ≠ []
  merged : Alike shuffled (trees.foldl merge (.leaf .any)).joined
    (trees'.foldl merge (.leaf .any)).joined

namespace MergeAlike

theorem refl {trees : List Tree} (filled : trees ≠ []) : MergeAlike shuffled trees trees :=
  ⟨filled, filled, Alike.refl _⟩

/-- As many inputs that all give the same tree. -/
theorem constant {α : Type} {run run' : α → Option Tree} {tree : Tree} {inputs inputs' : List α}
    (each : ∀ input, run input = some tree) (each' : ∀ input, run' input = some tree)
    (many : inputs'.length = inputs.length) (filled : inputs ≠ []) :
    MergeAlike shuffled (inputs.filterMap run) (inputs'.filterMap run') := by
  have copies : ∀ {run : α → Option Tree} (inputs : List α), (∀ input, run input = some tree) →
      inputs.filterMap run = List.replicate inputs.length tree := by
    intro run inputs each
    induction inputs with
    | nil => rfl
    | cons input rest induction =>
        rw [List.filterMap_cons, each, induction]
        rfl
  rw [copies inputs each, copies inputs' each', many]
  apply refl
  simpa using filled

variable {trees trees' : List Tree} (alike : MergeAlike shuffled trees trees')

include alike

theorem single (key : String) :
    MergeAlike shuffled (trees.map (Tree.single key)) (trees'.map (Tree.single key)) := by
  have below : ∀ trees : List Tree, trees ≠ [] →
      (trees.map (Tree.single key)).foldl merge (.leaf .any) =
        Tree.single key (trees.foldl merge (.leaf .any)) := by
    intro trees filled
    cases trees with
    | nil => exact absurd rfl filled
    | cons first rest =>
        rw [List.map_cons, List.foldl_cons, List.foldl_cons, merge_leaf, merge_leaf,
          foldl_merge_single]
  refine ⟨by simpa using alike.filled, by simpa using alike.filled', ?_⟩
  rw [below trees alike.filled, below trees' alike.filled', Tree.single, Tree.single, joined_object,
    joined_object]
  have member : Alike shuffled (.object ([] ++ (key, _) :: [])) _ := Alike.member alike.merged
  exact member

theorem listOf : MergeAlike shuffled (trees.map Tree.listOf) (trees'.map Tree.listOf) := by
  have elements : ∀ trees : List Tree, trees ≠ [] →
      ((trees.map Tree.listOf).foldl merge (.leaf .any)).joined =
        (trees.foldl merge (.leaf .any)).joined.listOf := by
    intro trees filled
    cases trees with
    | nil => exact absurd rfl filled
    | cons first rest =>
        rw [List.map_cons, List.foldl_cons, merge_leaf, Tree.listOf, foldl_merge_listOf,
          joined_array, List.singleton_append, mergeAll_eq_foldl filled]
        rfl
  refine ⟨by simpa using alike.filled, by simpa using alike.filled', ?_⟩
  rw [elements trees alike.filled, elements trees' alike.filled']
  exact Alike.listOf alike.merged

end MergeAlike

/-! ## Objects and a nullable object among them -/

theorem merge_emptyObject (tree : Tree) : merge emptyObject tree = tree := by
  induction tree using core.induct with
  | case1 wrapped induction =>
      have plain : emptyObject.dropWrapper = emptyObject := rfl
      rw [merge_optional_right, plain, induction]
  | case2 tree plain =>
      rw [emptyObject, merge, mapCore.eq_2 _ tree plain]
      cases tree with
      | object members => simp only [mergeMembers]
      | leaf expr => rfl
      | array elements => rfl
      | optional inner => rfl

theorem foldl_merge_emptyObject {trees : List Tree} (filled : trees ≠ []) :
    trees.foldl merge emptyObject = trees.foldl merge (.leaf .any) := by
  cases trees with
  | nil => exact absurd rfl filled
  | cons first rest => rw [List.foldl_cons, List.foldl_cons, merge_emptyObject, merge_leaf]

theorem foldl_merge_optional {trees : List Tree}
    (objects : ∀ tree ∈ trees, ∃ members, tree = .object members) (start : Tree) :
    trees.foldl merge (.optional start) = .optional (trees.foldl merge start) := by
  induction trees generalizing start with
  | nil => rfl
  | cons tree rest induction =>
      rw [List.forall_mem_cons] at objects
      obtain ⟨⟨members, same⟩, objects⟩ := objects
      have plain : (Tree.object members).dropWrapper = .object members := rfl
      rw [same, List.foldl_cons, List.foldl_cons, merge_optional_left, plain, induction objects]

/-- A nullable object makes the merge of the objects around it nullable. -/
theorem foldl_merge_asOptional {early late : List Tree} {members : List (String × Tree)}
    (objects : ∀ tree ∈ early ++ late, ∃ members, tree = .object members) :
    (early ++ (Tree.object members).asOptional :: late).foldl merge emptyObject =
      ((early ++ .object members :: late).foldl merge emptyObject).asOptional := by
  rw [List.forall_mem_append] at objects
  obtain ⟨first, folded, _⟩ := foldl_merge_objects objects.1 []
  obtain ⟨merged, folded', _⟩ := foldl_merge_objects objects.2 (mergeMembers first members)
  have nullable : (Tree.object members).asOptional = .optional (.object members) := rfl
  have plain : (Tree.object first).dropWrapper = .object first := rfl
  rw [List.foldl_append, List.foldl_append, emptyObject, folded, List.foldl_cons, List.foldl_cons,
    nullable, merge_optional_right, plain, merge_object_object, foldl_merge_optional objects.2,
    folded']
  rfl

/-- Some objects, and among them, nullable or not, the merge of all that they hold under some of
their names: this comes to the merge of the objects alone, nullable or not. -/
theorem alike_joined_absorb (allowed : shuffled) {early late part : List Tree}
    (objects : ∀ tree ∈ early ++ late, ∃ members, tree = .object members)
    (objects' : ∀ tree ∈ part, ∃ members, tree = .object members)
    (all : ∀ tree ∈ early ++ late, Distinct tree) (all' : ∀ tree ∈ part, Distinct tree)
    (names : ∀ name, valuesAt name part = [] ∨
      valuesAt name part = valuesAt name (early ++ late)) {wrap : Tree → Tree}
    (wrapped : wrap = id ∨ wrap = asOptional) :
    Alike shuffled (wrap ((early ++ late).foldl merge emptyObject)).joined
      ((early ++ wrap (part.foldl merge emptyObject) :: late).foldl merge (.leaf .any)).joined := by
  have grown : Grown shuffled _ _ :=
    grown_foldl_merge_absorb_part allowed objects objects' all all' names
  have distinct := distinct_foldl_merge distinct_emptyObject all
  rw [← foldl_merge_emptyObject (by simp)]
  rcases wrapped with plain | nullable
  · rw [plain]
    exact alike_joined distinct grown
  · obtain ⟨members, folded, _⟩ := foldl_merge_objects objects' []
    rw [emptyObject] at grown distinct ⊢
    rw [folded] at grown ⊢
    rw [nullable, ← emptyObject, foldl_merge_asOptional objects]
    exact alike_joined (distinct_asOptional distinct) grown.asOptional

end Tree

end ScopedSchema
