import ScopedSchema.Proofs.Table
import ScopedSchema.Tree

/-!
# Merging, seen inside nullable wrappers

A merge is decided by the two trees inside all nullable wrappers: arrays append, objects merge
member by member, and otherwise the right tree stands. A member of either side is then found in the
result, alone or merged with its namesake, and nothing else is found there.
-/

namespace ScopedSchema

namespace Tree

/-- The tree inside all nullable wrappers. -/
def core : Tree → Tree
  | .optional inner => inner.core
  | tree => tree

/-- The merge of two trees that carry no nullable wrapper. -/
def mergeCores : Tree → Tree → Tree
  | .array left, .array right => .array (left ++ right)
  | .object left, .object right => .object (mergeMembers left right)
  | _, right => right

theorem core_ne_optional (tree inner : Tree) : tree.core ≠ .optional inner := by
  induction tree using core.induct with
  | case1 wrapped induction =>
      rw [core]
      exact induction
  | case2 tree plain =>
      rw [core.eq_2 tree plain]
      exact plain inner

theorem core_dropWrapper (tree : Tree) : tree.dropWrapper.core = tree.core := by
  cases tree <;> simp [dropWrapper, core]

theorem core_asOptional (tree : Tree) : tree.asOptional.core = tree.core := by
  cases tree <;> simp [asOptional, core]

theorem core_mapCore (change : Tree → Tree) (tree : Tree) :
    (tree.mapCore change).core = (change tree.core).core := by
  induction tree using core.induct with
  | case1 inner induction =>
      rw [mapCore, core, core]
      exact induction
  | case2 tree plain =>
      rw [mapCore.eq_2 change tree plain, core.eq_2 tree plain]

theorem core_merge (left right : Tree) :
    (merge left right).core = mergeCores left.core right.core := by
  induction left using core.induct generalizing right with
  | case1 inner induction =>
      rw [merge_optional_left, core, core, induction right.dropWrapper, core_dropWrapper]
  | case2 left plain =>
      rw [core.eq_2 left plain]
      have bare := core_ne_optional right
      cases left with
      | optional inner => exact absurd rfl (plain inner)
      | leaf expr => simp only [merge_leaf, mergeCores]
      | array elements =>
          rw [merge, core_mapCore]
          cases inside : right.core with
          | optional inner => exact absurd inside (bare inner)
          | leaf expr => simp only [mergeCores, core]
          | object members => simp only [mergeCores, core]
          | array others => simp only [mergeCores, core]
      | object members =>
          rw [merge, core_mapCore]
          cases inside : right.core with
          | optional inner => exact absurd inside (bare inner)
          | leaf expr => simp only [mergeCores, core]
          | array elements => simp only [mergeCores, core]
          | object others => simp only [mergeCores, core]

/-! ## Members -/

theorem split_of_lookup {name : String} {first : Tree} {members : List (String × Tree)}
    (found : members.lookup name = some first) :
    ∃ before after, members = before ++ (name, first) :: after ∧
      eraseEntry name members = before ++ after := by
  obtain ⟨before, after, same, fresh⟩ := List.lookup_eq_some_iff.mp found
  have passed : ∀ entry ∈ before, ¬(entry.1 == name) = true := by
    intro entry member equal
    have other := fresh entry member
    rw [beq_iff_eq] at equal
    simp [equal] at other
  refine ⟨before, after, same, ?_⟩
  rw [same, eraseEntry, List.eraseP_append_right _ passed]
  simp

theorem mem_of_mem_eraseEntry {name : String} {entry : String × Tree}
    {members : List (String × Tree)} (member : entry ∈ eraseEntry name members) :
    entry ∈ members :=
  List.mem_of_mem_eraseP member

/-- Erasing a name takes away its first value only. -/
theorem mem_eraseEntry_or_first {name : String} {first : Tree} {entry : String × Tree}
    {members : List (String × Tree)} (found : members.lookup name = some first)
    (member : entry ∈ members) : entry ∈ eraseEntry name members ∨ entry = (name, first) := by
  obtain ⟨before, after, same, erased⟩ := split_of_lookup found
  rw [erased]
  rw [same] at member
  simp only [List.mem_append, List.mem_cons] at member ⊢
  rcases member with early | here | late
  · exact Or.inl (Or.inl early)
  · exact Or.inr here
  · exact Or.inl (Or.inr late)

theorem mem_mergeMembers {left right : List (String × Tree)} {entry : String × Tree}
    (member : entry ∈ mergeMembers left right) :
    entry ∈ left ∨ entry ∈ right ∨
      ∃ name first second, (name, first) ∈ left ∧ (name, second) ∈ right ∧
        entry = (name, merge first second) := by
  induction left generalizing right with
  | nil =>
      rw [mergeMembers] at member
      exact Or.inr (Or.inl member)
  | cons head rest induction =>
      obtain ⟨name, value⟩ := head
      cases found : right.lookup name with
      | none =>
          rw [mergeMembers, found] at member
          rcases List.mem_cons.mp member with here | later
          · exact Or.inl (here ▸ List.mem_cons_self)
          · rcases induction later with old | new | ⟨shared, first, second, inLeft, inRight, same⟩
            · exact Or.inl (List.mem_cons_of_mem _ old)
            · exact Or.inr (Or.inl new)
            · exact Or.inr (Or.inr
                ⟨shared, first, second, List.mem_cons_of_mem _ inLeft, inRight, same⟩)
      | some other =>
          rw [mergeMembers, found] at member
          rcases List.mem_cons.mp member with here | later
          · exact Or.inr (Or.inr
              ⟨name, value, other, List.mem_cons_self, mem_of_lookup found, here⟩)
          · rcases induction later with old | new | ⟨shared, first, second, inLeft, inRight, same⟩
            · exact Or.inl (List.mem_cons_of_mem _ old)
            · exact Or.inr (Or.inl (mem_of_mem_eraseEntry new))
            · exact Or.inr (Or.inr ⟨shared, first, second, List.mem_cons_of_mem _ inLeft,
                mem_of_mem_eraseEntry inRight, same⟩)

theorem mem_mergeMembers_of_left {left right : List (String × Tree)} {name : String}
    {value : Tree} (member : (name, value) ∈ left) :
    (name, value) ∈ mergeMembers left right ∨
      ∃ other, (name, other) ∈ right ∧ (name, merge value other) ∈ mergeMembers left right := by
  induction left generalizing right with
  | nil => cases member
  | cons head rest induction =>
      obtain ⟨key, current⟩ := head
      cases found : right.lookup key with
      | none =>
          rw [mergeMembers, found]
          rcases List.mem_cons.mp member with here | later
          · exact Or.inl (here ▸ List.mem_cons_self)
          · rcases induction later with alone | ⟨other, inRight, merged⟩
            · exact Or.inl (List.mem_cons_of_mem _ alone)
            · exact Or.inr ⟨other, inRight, List.mem_cons_of_mem _ merged⟩
      | some other =>
          rw [mergeMembers, found]
          rcases List.mem_cons.mp member with here | later
          · simp only [Prod.mk.injEq] at here
            rw [here.1, here.2]
            exact Or.inr ⟨other, mem_of_lookup found, List.mem_cons_self⟩
          · rcases induction later with alone | ⟨second, inRight, merged⟩
            · exact Or.inl (List.mem_cons_of_mem _ alone)
            · exact Or.inr ⟨second, mem_of_mem_eraseEntry inRight,
                List.mem_cons_of_mem _ merged⟩

theorem mem_mergeMembers_of_right {left right : List (String × Tree)} {name : String}
    {value : Tree} (member : (name, value) ∈ right) :
    (name, value) ∈ mergeMembers left right ∨
      ∃ other, (name, other) ∈ left ∧ (name, merge other value) ∈ mergeMembers left right := by
  induction left generalizing right with
  | nil =>
      rw [mergeMembers]
      exact Or.inl member
  | cons head rest induction =>
      obtain ⟨key, current⟩ := head
      cases found : right.lookup key with
      | none =>
          rw [mergeMembers, found]
          rcases induction member with alone | ⟨other, inLeft, merged⟩
          · exact Or.inl (List.mem_cons_of_mem _ alone)
          · exact Or.inr ⟨other, List.mem_cons_of_mem _ inLeft, List.mem_cons_of_mem _ merged⟩
      | some first =>
          rw [mergeMembers, found]
          rcases mem_eraseEntry_or_first found member with stays | same
          · rcases induction stays with alone | ⟨other, inLeft, merged⟩
            · exact Or.inl (List.mem_cons_of_mem _ alone)
            · exact Or.inr ⟨other, List.mem_cons_of_mem _ inLeft,
                List.mem_cons_of_mem _ merged⟩
          · simp only [Prod.mk.injEq] at same
            rw [same.1, same.2]
            exact Or.inr ⟨current, List.mem_cons_self, List.mem_cons_self⟩

/-! ## What the right side brings -/

theorem core_merge_array_right {left right : Tree} {elements : List Tree}
    (inside : right.core = .array elements) :
    ∃ before, (merge left right).core = .array (before ++ elements) := by
  rw [core_merge, inside]
  cases left.core with
  | array before => exact ⟨before, rfl⟩
  | leaf expr => exact ⟨[], rfl⟩
  | object members => exact ⟨[], rfl⟩
  | optional inner => exact ⟨[], rfl⟩

/-- A member of the right side stands in the merge, where it may be merged with a namesake. -/
theorem core_merge_object_right {left right : Tree} {others : List (String × Tree)} {key : String}
    {other : Tree} (inside : right.core = .object others) (member : (key, other) ∈ others) :
    ∃ members first, (merge left right).core = .object members ∧
      (key, merge first other) ∈ members := by
  -- A leaf leaves what is merged into it as it is.
  have alone : (key, merge (.leaf .any) other) ∈ others := by
    rw [merge_leaf]
    exact member
  rw [core_merge, inside]
  cases left.core with
  | leaf expr => exact ⟨others, _, rfl, alone⟩
  | array elements => exact ⟨others, _, rfl, alone⟩
  | optional inner => exact ⟨others, _, rfl, alone⟩
  | object members =>
      rcases mem_mergeMembers_of_right member with single | ⟨first, _, merged⟩
      · rw [← merge_leaf .any other] at single
        exact ⟨_, _, rfl, single⟩
      · exact ⟨_, first, rfl, merged⟩

/-! ## Members that both sides share -/

/-- Leaves that open both sides alike open the merge. -/
theorem mergeMembers_append_append {shared : List (String × Tree)}
    (leaves : ∀ entry ∈ shared, ∃ expr, entry.2 = .leaf expr)
    (left right : List (String × Tree)) :
    mergeMembers (shared ++ left) (shared ++ right) = shared ++ mergeMembers left right := by
  induction shared with
  | nil => rfl
  | cons entry shared induction =>
      rcases entry with ⟨name, value⟩
      rcases leaves _ List.mem_cons_self with ⟨expr, leaf⟩
      have first : ((name, value) :: (shared ++ right)).lookup name = some value := by simp
      have erased : eraseEntry name ((name, value) :: (shared ++ right)) = shared ++ right := by
        simp [eraseEntry]
      simp only [List.cons_append]
      rw [mergeMembers, first]
      simp only
      rw [erased, induction fun other member => leaves other (List.mem_cons_of_mem _ member)]
      simp only at leaf
      rw [leaf, merge_leaf]

theorem mergeMembers_of_disjoint {left right : List (String × Tree)}
    (apart : ∀ entry ∈ left, right.lookup entry.1 = none) :
    mergeMembers left right = left ++ right := by
  induction left with
  | nil => rw [mergeMembers, List.nil_append]
  | cons entry rest induction =>
      rcases entry with ⟨name, value⟩
      have absent : right.lookup name = none := apart _ List.mem_cons_self
      rw [mergeMembers, absent]
      simp only
      rw [induction fun other member => apart other (List.mem_cons_of_mem _ member),
        List.cons_append]

end Tree

end ScopedSchema
