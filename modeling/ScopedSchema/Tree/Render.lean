import ScopedSchema.Tree

/-!
Printing of schema trees. The elements of an array are merged into one before they are printed,
which ends because a merge is never larger than its two sides together.
-/

namespace ScopedSchema

namespace Tree

mutual

def size : Tree → Nat
  | .leaf _ => 1
  | .object members => 1 + sizeOfMembers members
  | .array elements => 1 + sizeOfElements elements
  | .optional inner => 1 + size inner

def sizeOfMembers : List (String × Tree) → Nat
  | [] => 0
  | (_, value) :: rest => size value + sizeOfMembers rest

def sizeOfElements : List Tree → Nat
  | [] => 0
  | element :: rest => size element + sizeOfElements rest

end

theorem sizeOfElements_append (left right : List Tree) :
    sizeOfElements (left ++ right) = sizeOfElements left + sizeOfElements right := by
  induction left with
  | nil => simp [sizeOfElements]
  | cons element rest induction => simp [sizeOfElements, induction, Nat.add_assoc]

theorem size_dropWrapper_le (tree : Tree) : tree.dropWrapper.size ≤ tree.size := by
  cases tree <;> simp [dropWrapper, size]

theorem size_mapCore_le (change : Tree → Tree) (extra : Nat)
    (bound : ∀ core, (change core).size ≤ extra + core.size) (tree : Tree) :
    (tree.mapCore change).size ≤ extra + tree.size := by
  induction tree using mapCore.induct with
  | case1 inner induction =>
    simp only [mapCore, size]
    omega
  | case2 core plain =>
    rw [mapCore.eq_2 _ _ plain]
    exact bound core

theorem sizeOfMembers_eraseEntry (name : String) {value : Tree} {entries : List (String × Tree)}
    (found : entries.lookup name = some value) :
    sizeOfMembers (eraseEntry name entries) + value.size = sizeOfMembers entries := by
  induction entries with
  | nil => simp at found
  | cons entry rest induction =>
    obtain ⟨other, current⟩ := entry
    by_cases same : name = other
    · subst same
      have equal : current = value := by simpa using found
      simp only [eraseEntry, sizeOfMembers, equal, List.eraseP_cons, beq_self_eq_true, cond_true]
      omega
    · rw [List.lookup_cons, beq_false_of_ne same] at found
      have step := induction found
      simp only [eraseEntry, sizeOfMembers, List.eraseP_cons,
        beq_false_of_ne (fun equal : other = name => same equal.symm), cond_false] at step ⊢
      omega

mutual

theorem size_merge_le (left right : Tree) : (merge left right).size ≤ left.size + right.size := by
  cases left with
  | leaf expr =>
    simp only [merge_leaf]
    omega
  | optional inner =>
    have step := size_merge_le inner right.dropWrapper
    have shrink := size_dropWrapper_le right
    simp only [merge_optional_left, size]
    omega
  | array elements =>
    rw [merge]
    exact size_mapCore_le _ (size (.array elements)) (fun core => by
      cases core with
      | array others =>
        simp only [size, sizeOfElements_append]
        omega
      | leaf expr => simp only [size]; omega
      | object members => simp only [size]; omega
      | optional inner => simp only [size]; omega) right
  | object members =>
    rw [merge]
    exact size_mapCore_le _ (size (.object members)) (fun core => by
      cases core with
      | object others =>
        have step := sizeOfMembers_mergeMembers_le members others
        simp only [size]
        omega
      | leaf expr => simp only [size]; omega
      | array elements => simp only [size]; omega
      | optional inner => simp only [size]; omega) right

theorem sizeOfMembers_mergeMembers_le (left right : List (String × Tree)) :
    sizeOfMembers (mergeMembers left right) ≤ sizeOfMembers left + sizeOfMembers right := by
  match left with
  | [] =>
    rw [mergeMembers]
    omega
  | (name, value) :: rest =>
    cases found : right.lookup name with
    | none =>
      have step := sizeOfMembers_mergeMembers_le rest right
      rw [mergeMembers, found]
      simp only [sizeOfMembers]
      omega
    | some other =>
      have merged := size_merge_le value other
      have step := sizeOfMembers_mergeMembers_le rest (eraseEntry name right)
      have erased := sizeOfMembers_eraseEntry name found
      rw [mergeMembers, found]
      simp only [sizeOfMembers]
      omega

end

theorem size_foldl_merge_le (first : Tree) (rest : List Tree) :
    (rest.foldl merge first).size ≤ first.size + sizeOfElements rest := by
  induction rest generalizing first with
  | nil => simp [sizeOfElements]
  | cons next others induction =>
    have step := induction (merge first next)
    have merged := size_merge_le first next
    simp only [List.foldl_cons, sizeOfElements]
    omega

theorem size_mergeAll_le {elements : List Tree} {merged : Tree}
    (found : mergeAll elements = some merged) : merged.size ≤ sizeOfElements elements := by
  cases elements with
  | nil => simp [mergeAll] at found
  | cons first rest =>
    rw [← Option.some.inj found]
    exact size_foldl_merge_le first rest

theorem size_le_of_mem_members {name : String} {value : Tree} {members : List (String × Tree)}
    (member : (name, value) ∈ members) : value.size ≤ sizeOfMembers members := by
  induction members with
  | nil => cases member
  | cons entry rest induction =>
    obtain ⟨other, current⟩ := entry
    rcases List.mem_cons.mp member with same | later
    · simp only [Prod.mk.injEq] at same
      simp only [sizeOfMembers, same.2]
      omega
    · have step := induction later
      simp only [sizeOfMembers]
      omega

/-- An array without elements stands for an array of any values. -/
def render : Tree → Expr
  | .leaf expr => expr
  | .object members => .object (members.map fun entry => (entry.1, render entry.2))
  | .array elements => .array (match _ : mergeAll elements with
    | none => .any
    | some merged => render merged)
  | .optional inner => (render inner).nullish
termination_by tree => tree.size
decreasing_by
  · rename_i member
    have bound := size_le_of_mem_members member
    simp only [size]
    omega
  · rename_i found
    have bound := size_mergeAll_le found
    simp only [size]
    omega
  · simp only [size]
    omega

@[simp] theorem render_leaf (expr : Expr) : render (.leaf expr) = expr := by
  rw [render]

theorem render_object (members : List (String × Tree)) :
    render (.object members) =
      .object (members.map fun entry => (entry.1, render entry.2)) := by
  rw [render]

theorem render_array (elements : List Tree) :
    render (.array elements) = .array ((mergeAll elements).elim .any render) := by
  rw [render]
  split <;> simp_all

theorem render_optional (inner : Tree) :
    render (.optional inner) = (render inner).nullish := by
  rw [render]

end Tree

end ScopedSchema
