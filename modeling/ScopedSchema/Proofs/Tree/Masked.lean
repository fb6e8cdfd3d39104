import ScopedSchema.Proofs.Tree.Merge

/-!
# Trees without the text of some leaves

Masking blanks the leaves below certain keys and keeps everything else, so two trees that are masked
alike have the same shape and the same text at every other leaf. A merge is decided by the shape of
its sides: the mask of a merge is the merge of the masks.
-/

namespace ScopedSchema

namespace Tree

mutual

/-- Blanks every leaf below keys that are hidden. -/
def masked (hidden : List String → Bool) : Tree → Tree
  | .leaf expr => .leaf (if hidden [] then .any else expr)
  | .object members => .object (maskedMembers hidden members)
  | .array elements => .array (maskedElements hidden elements)
  | .optional inner => .optional (masked hidden inner)

def maskedMembers (hidden : List String → Bool) : List (String × Tree) → List (String × Tree)
  | [] => []
  | (key, value) :: rest =>
    (key, masked (fun keys => hidden (key :: keys)) value) :: maskedMembers hidden rest

def maskedElements (hidden : List String → Bool) : List Tree → List Tree
  | [] => []
  | element :: rest => masked hidden element :: maskedElements hidden rest

end

variable (hidden : List String → Bool)

@[simp] theorem masked_leaf (expr : Expr) :
    masked hidden (.leaf expr) = .leaf (if hidden [] then .any else expr) := by
  rw [masked]

@[simp] theorem masked_object (members : List (String × Tree)) :
    masked hidden (.object members) = .object (maskedMembers hidden members) := by
  rw [masked]

@[simp] theorem masked_array (elements : List Tree) :
    masked hidden (.array elements) = .array (maskedElements hidden elements) := by
  rw [masked]

@[simp] theorem masked_optional (inner : Tree) :
    masked hidden (.optional inner) = .optional (masked hidden inner) := by
  rw [masked]

theorem masked_emptyObject : masked hidden emptyObject = emptyObject := by
  simp [emptyObject, maskedMembers]

theorem masked_single (key : String) (value : Tree) :
    masked hidden (single key value) =
      single key (masked (fun keys => hidden (key :: keys)) value) := by
  simp [single, maskedMembers]

theorem masked_listOf (element : Tree) :
    masked hidden (listOf element) = listOf (masked hidden element) := by
  simp [listOf, maskedElements]

theorem masked_asOptional (tree : Tree) :
    masked hidden tree.asOptional = (masked hidden tree).asOptional := by
  cases tree <;> simp [asOptional]

theorem masked_dropWrapper (tree : Tree) :
    masked hidden tree.dropWrapper = (masked hidden tree).dropWrapper := by
  cases tree <;> simp [dropWrapper]

theorem masked_mapCore {change change' : Tree → Tree} (tree : Tree)
    (inside : masked hidden (change tree.core) = change' (masked hidden tree.core)) :
    masked hidden (tree.mapCore change) = (masked hidden tree).mapCore change' := by
  induction tree using core.induct with
  | case1 wrapped induction =>
      rw [core] at inside
      rw [mapCore, masked_optional, masked_optional, mapCore, induction inside]
  | case2 tree plain =>
      rw [core.eq_2 tree plain] at inside
      have plain' : ∀ inner, masked hidden tree ≠ .optional inner := by
        intro inner same
        cases tree with
        | optional wrapped => exact plain wrapped rfl
        | leaf expr => simp at same
        | object members => simp at same
        | array elements => simp at same
      rw [mapCore.eq_2 change tree plain, mapCore.eq_2 change' (masked hidden tree) plain', inside]

theorem maskedElements_append (left right : List Tree) :
    maskedElements hidden (left ++ right) =
      maskedElements hidden left ++ maskedElements hidden right := by
  induction left with
  | nil => rw [List.nil_append, maskedElements, List.nil_append]
  | cons element rest induction =>
      rw [List.cons_append, maskedElements, maskedElements, induction, List.cons_append]

theorem lookup_maskedMembers (name : String) (members : List (String × Tree)) :
    (maskedMembers hidden members).lookup name =
      (members.lookup name).map (masked fun keys => hidden (name :: keys)) := by
  induction members with
  | nil => simp [maskedMembers]
  | cons entry rest induction =>
      obtain ⟨key, value⟩ := entry
      rw [maskedMembers, List.lookup_cons, List.lookup_cons]
      by_cases same : name = key
      · simp [same]
      · rw [beq_false_of_ne same, induction]

theorem maskedMembers_eraseEntry (name : String) (members : List (String × Tree)) :
    maskedMembers hidden (eraseEntry name members) =
      eraseEntry name (maskedMembers hidden members) := by
  induction members with
  | nil => simp [eraseEntry, maskedMembers]
  | cons entry rest induction =>
      obtain ⟨key, value⟩ := entry
      unfold eraseEntry at induction ⊢
      rw [maskedMembers, List.eraseP_cons, List.eraseP_cons]
      cases key == name with
      | true => rfl
      | false =>
          simp only [Bool.cond_false, maskedMembers, induction]

mutual

/-- A merge never looks at the text of a leaf, unless that leaf gives way as a whole. -/
theorem masked_merge (hidden : List String → Bool) (left right : Tree) :
    masked hidden (merge left right) = merge (masked hidden left) (masked hidden right) := by
  match left with
  | .leaf expr => simp only [merge_leaf, masked_leaf]
  | .optional inner =>
      rw [merge_optional_left, masked_optional, masked_optional, merge_optional_left,
        masked_merge hidden inner, masked_dropWrapper]
  | .array elements =>
      rw [merge, masked_array, merge]
      apply masked_mapCore
      have bare := core_ne_optional right
      cases inside : right.core with
      | leaf expr => simp only [masked_leaf]
      | object members => simp only [masked_object]
      | array others => simp only [masked_array, maskedElements_append]
      | optional inner => exact absurd inside (bare inner)
  | .object members =>
      rw [merge, masked_object, merge]
      apply masked_mapCore
      have bare := core_ne_optional right
      cases inside : right.core with
      | leaf expr => simp only [masked_leaf]
      | array elements => simp only [masked_array]
      | object others => simp only [masked_object, maskedMembers_mergeMembers hidden members]
      | optional inner => exact absurd inside (bare inner)

theorem maskedMembers_mergeMembers (hidden : List String → Bool)
    (left right : List (String × Tree)) :
    maskedMembers hidden (mergeMembers left right) =
      mergeMembers (maskedMembers hidden left) (maskedMembers hidden right) := by
  match left with
  | [] => simp only [mergeMembers, maskedMembers]
  | (name, value) :: rest =>
      rw [mergeMembers, maskedMembers, mergeMembers, lookup_maskedMembers]
      cases right.lookup name with
      | none => simp only [Option.map_none, maskedMembers, maskedMembers_mergeMembers hidden rest]
      | some other =>
          simp only [Option.map_some, maskedMembers, masked_merge _ value other,
            maskedMembers_mergeMembers hidden rest, maskedMembers_eraseEntry]

end

theorem masked_foldl_merge (trees : List Tree) (start : Tree) :
    masked hidden (trees.foldl merge start) =
      (trees.map (masked hidden)).foldl merge (masked hidden start) := by
  induction trees generalizing start with
  | nil => rfl
  | cons tree rest induction =>
      rw [List.foldl_cons, induction, masked_merge, List.map_cons, List.foldl_cons]

end Tree

end ScopedSchema
