import Mathlib.Data.List.Nodup
import ScopedSchema.Proofs.Tree.Distinct

/-!
# Members of merged objects, one name at a time

What stands under a name in a fold of merged objects is the merge of what stands under it in each of
them. The names come in the order in which they are met.
-/

namespace ScopedSchema

namespace Tree

/-- What stands under the name, if the tree is an object that has it. -/
def memberOf? (name : String) : Tree → Option Tree
  | .object members => members.lookup name
  | _ => none

/-- What the trees have under the name, in order. -/
def valuesAt (name : String) (trees : List Tree) : List Tree := trees.filterMap (memberOf? name)

theorem valuesAt_append (name : String) (first second : List Tree) :
    valuesAt name (first ++ second) = valuesAt name first ++ valuesAt name second :=
  List.filterMap_append

theorem valuesAt_cons (name : String) (first : Tree) (rest : List Tree) :
    valuesAt name (first :: rest) = (memberOf? name first).toList ++ valuesAt name rest := by
  rw [valuesAt, List.filterMap_cons]
  cases memberOf? name first <;> rfl

theorem lookup_eraseEntry_of_ne {name other : String} (different : name ≠ other)
    (members : List (String × Tree)) :
    (eraseEntry other members).lookup name = members.lookup name := by
  induction members with
  | nil => rfl
  | cons entry rest induction =>
      obtain ⟨key, value⟩ := entry
      by_cases found : key = other
      · have passed : (name == key) = false := by
          rw [found]
          exact beq_false_of_ne different
        have erased : eraseEntry other ((key, value) :: rest) = rest := by
          simp [eraseEntry, found]
        rw [erased, List.lookup_cons, passed]
      · have kept : eraseEntry other ((key, value) :: rest) =
            (key, value) :: eraseEntry other rest := by
          simp [eraseEntry, found]
        rw [kept, List.lookup_cons, List.lookup_cons, induction]

/-- Each name of a merge is merged for itself. -/
theorem lookup_mergeMembers (left right : List (String × Tree)) (name : String) :
    (mergeMembers left right).lookup name =
      Option.merge merge (left.lookup name) (right.lookup name) := by
  induction left generalizing right with
  | nil =>
      rw [mergeMembers, List.lookup_nil]
      cases right.lookup name <;> rfl
  | cons entry rest induction =>
      obtain ⟨key, value⟩ := entry
      by_cases here : name = key
      · subst here
        rw [mergeMembers, List.lookup_cons_self]
        cases found : right.lookup name with
        | none =>
            simp only [List.lookup_cons_self]
            rfl
        | some other =>
            simp only [List.lookup_cons_self]
            rfl
      · have passed : (name == key) = false := beq_false_of_ne here
        have first : ∀ (current : Tree) (others : List (String × Tree)),
            ((key, current) :: others).lookup name = others.lookup name := by
          intro current others
          rw [List.lookup_cons, passed]
        rw [mergeMembers, first]
        cases found : right.lookup key with
        | none =>
            simp only
            rw [first, induction]
        | some other =>
            simp only
            rw [first, induction, lookup_eraseEntry_of_ne here]

/-- The first of several trees may be merged with the second beforehand. -/
theorem mergeAll_merge_toList (first second : Option Tree) (rest : List Tree) :
    mergeAll ((Option.merge merge first second).toList ++ rest) =
      mergeAll (first.toList ++ (second.toList ++ rest)) := by
  cases first <;> cases second <;> rfl

/-- A fold over objects is an object that merges the values of each name. -/
theorem foldl_merge_objects {trees : List Tree} (all : ∀ tree ∈ trees, ∃ members,
    tree = .object members) (start : List (String × Tree)) :
    ∃ merged, trees.foldl merge (.object start) = .object merged ∧
      ∀ name, merged.lookup name =
        mergeAll ((start.lookup name).toList ++ valuesAt name trees) := by
  induction trees generalizing start with
  | nil =>
      refine ⟨start, rfl, ?_⟩
      intro name
      cases start.lookup name <;> rfl
  | cons tree rest induction =>
      obtain ⟨members, same⟩ := all tree List.mem_cons_self
      have later := fun other member => all other (List.mem_cons_of_mem _ member)
      obtain ⟨merged, folded, found⟩ := induction later (mergeMembers start members)
      refine ⟨merged, ?_, ?_⟩
      · rw [List.foldl_cons, same, merge_object_object]
        exact folded
      · intro name
        rw [found name, valuesAt_cons, same, lookup_mergeMembers, mergeAll_merge_toList]
        rfl

/-! ## Names -/

/-- What is new on the right comes last, in its own order. -/
theorem names_mergeMembers {left right : List (String × Tree)}
    (nodup : (right.map Prod.fst).Nodup) :
    (mergeMembers left right).map Prod.fst =
      left.map Prod.fst ++ (right.map Prod.fst).filter fun name => name ∉ left.map Prod.fst := by
  induction left generalizing right with
  | nil => simp [mergeMembers]
  | cons entry rest induction =>
      obtain ⟨name, value⟩ := entry
      rw [mergeMembers]
      cases found : right.lookup name with
      | none =>
          have absent : name ∉ right.map Prod.fst := by
            rw [← lookup_isSome_iff, found]
            simp
          simp only [List.map_cons, List.cons_append, induction nodup]
          congr 2
          apply List.filter_congr
          intro other member
          have different : other ≠ name := fun same => absent (same ▸ member)
          simp [different]
      | some other =>
          obtain ⟨before, after, same, erased⟩ := split_of_lookup found
          have kept := (names_eraseEntry nodup found).1
          have fresh := (names_eraseEntry nodup found).2
          simp only [List.map_cons, List.cons_append, induction kept]
          rw [erased, List.map_append] at fresh ⊢
          rw [same, List.map_append, List.map_cons]
          have skipped : (before.map Prod.fst ++ name :: after.map Prod.fst).filter
              (fun key => key ∉ name :: rest.map Prod.fst) =
              (before.map Prod.fst ++ after.map Prod.fst).filter
                fun key => key ∉ name :: rest.map Prod.fst := by
            simp [List.filter_append]
          rw [skipped]
          congr 2
          apply List.filter_congr
          intro key member
          have different : key ≠ name := fun equal => fresh (equal ▸ member)
          simp [different]

theorem mem_names_mergeMembers_iff {left right : List (String × Tree)} {name : String} :
    name ∈ (mergeMembers left right).map Prod.fst ↔
      name ∈ left.map Prod.fst ∨ name ∈ right.map Prod.fst := by
  simp only [← lookup_isSome_iff, lookup_mergeMembers]
  cases left.lookup name <;> cases right.lookup name <;> simp [Option.merge]

end Tree

end ScopedSchema
