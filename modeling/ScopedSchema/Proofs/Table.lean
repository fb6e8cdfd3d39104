import Mathlib.Data.List.Induction
import Mathlib.Data.List.Nodup
import ScopedSchema.Table

/-!
# Entries under names

Where no name is repeated, a name picks one entry, and a table is what its own entries give when
they are inserted one after another.
-/

namespace ScopedSchema

variable {α : Type} {entries : List (String × α)} {name : String}

theorem mem_of_lookup {value : α} (found : entries.lookup name = some value) :
    (name, value) ∈ entries := by
  obtain ⟨before, after, same, _⟩ := List.lookup_eq_some_iff.mp found
  simp [same]

/-- A name picks one entry. -/
theorem eq_of_mem_of_nodup {first second : α} (nodup : (entries.map Prod.fst).Nodup)
    (inside : (name, first) ∈ entries) (again : (name, second) ∈ entries) : first = second := by
  have same := List.inj_on_of_nodup_map nodup inside again rfl
  exact congrArg Prod.snd same

theorem lookup_isSome_iff : (entries.lookup name).isSome = true ↔ name ∈ entries.map Prod.fst := by
  induction entries with
  | nil => simp
  | cons entry rest induction =>
    obtain ⟨key, value⟩ := entry
    by_cases here : name = key
    · simp [here]
    · rw [List.lookup_cons, beq_false_of_ne here]
      simp [induction, here]

theorem lookup_eq_none_iff : entries.lookup name = none ↔ name ∉ entries.map Prod.fst := by
  rw [← lookup_isSome_iff, Bool.not_eq_true, Option.isSome_eq_false_iff, Option.isNone_iff_eq_none]

theorem lookup_eq_some_iff_of_nodup {value : α} (nodup : (entries.map Prod.fst).Nodup) :
    entries.lookup name = some value ↔ (name, value) ∈ entries := by
  constructor
  · exact mem_of_lookup
  · intro member
    have present : (entries.lookup name).isSome = true :=
      lookup_isSome_iff.mpr (List.mem_map_of_mem member)
    obtain ⟨other, found⟩ := Option.isSome_iff_exists.mp present
    rw [found, eq_of_mem_of_nodup nodup (mem_of_lookup found) member]

/-- Without repeated names, the order of the entries does not matter to what stands under each. -/
theorem lookup_eq_of_perm {others : List (String × α)} (nodup : (entries.map Prod.fst).Nodup)
    (perm : entries.Perm others) (name : String) : entries.lookup name = others.lookup name := by
  have nodup' := (perm.map Prod.fst).nodup_iff.mp nodup
  apply Option.ext
  intro value
  rw [lookup_eq_some_iff_of_nodup nodup, lookup_eq_some_iff_of_nodup nodup', perm.mem_iff]

/-- Without repeated names, an entry is new behind those before it. -/
theorem not_mem_names_of_nodup {before after : List (String × α)} {entry : String × α}
    (nodup : ((before ++ entry :: after).map Prod.fst).Nodup) :
    entry.1 ∉ before.map Prod.fst := by
  rw [List.map_append, List.map_cons] at nodup
  exact fun inside => (List.nodup_append.mp nodup).2.2 _ inside _ List.mem_cons_self rfl

theorem insertEntry_of_absent (value : α) (absent : name ∉ entries.map Prod.fst) :
    insertEntry name value entries = entries ++ [(name, value)] := by
  induction entries with
  | nil => rfl
  | cons entry rest induction =>
    rw [List.map_cons, List.mem_cons, not_or] at absent
    rw [insertEntry, if_neg (Ne.symm absent.1), induction absent.2, List.cons_append]

namespace Table

theorem entries_foldl_insert (table : Table α) (added : List (String × α))
    (nodup : ((table.entries ++ added).map Prod.fst).Nodup) :
    (added.foldl (fun table entry => table.insert entry.1 entry.2) table).entries =
      table.entries ++ added := by
  induction added generalizing table with
  | nil => simp
  | cons entry rest induction =>
    have absent := not_mem_names_of_nodup nodup
    have inserted : (table.insert entry.1 entry.2).entries = table.entries ++ [entry] :=
      insertEntry_of_absent entry.2 absent
    rw [List.foldl_cons, induction]
    · rw [inserted, List.append_assoc, List.singleton_append]
    · rwa [inserted, List.append_assoc, List.singleton_append]

theorem eq_of_entries {first second : Table α} (same : first.entries = second.entries) :
    first = second := by
  cases first
  cases second
  cases same
  rfl

theorem ofList_entries (table : Table α) : ofList table.entries = table :=
  eq_of_entries (entries_foldl_insert empty table.entries table.names_nodup)

/-- What a list of named values becomes as a table: each name stands where it first stands in the
list, with the value that it last has there. -/
def firstPlaces (entries : List (String × α)) : List (String × α) :=
  (entries.map Prod.fst).eraseDups.filterMap fun name =>
    (entries.reverse.lookup name).map fun value => (name, value)

theorem ofList_append_singleton (entries : List (String × α)) (entry : String × α) :
    ofList (entries ++ [entry]) = (ofList entries).insert entry.1 entry.2 := by
  rw [ofList, List.foldl_append]
  rfl

theorem names_ofList (entries : List (String × α)) :
    (ofList entries).names = (entries.map Prod.fst).eraseDups := by
  induction entries using List.reverseRecOn with
  | nil => rfl
  | append_singleton entries entry induction =>
    rw [ofList_append_singleton, names_insert, induction, List.map_append, List.map_singleton,
      List.eraseDups_append]
    by_cases known : entry.1 ∈ entries.map Prod.fst
    · rw [if_pos (List.mem_eraseDups.mpr known)]
      simp [List.removeAll, known]
    · rw [if_neg (mt List.mem_eraseDups.mp known)]
      simp [List.removeAll, known, List.eraseDups_cons]

theorem find?_ofList (entries : List (String × α)) (name : String) :
    (ofList entries).find? name = entries.reverse.lookup name := by
  induction entries using List.reverseRecOn with
  | nil => rfl
  | append_singleton entries entry induction =>
    have last : (entries ++ [entry]).reverse = (entry.1, entry.2) :: entries.reverse := by simp
    rw [ofList_append_singleton, find?_insert, induction, last]
    by_cases same : name = entry.1
    · rw [if_pos same, List.lookup_cons, same, beq_self_eq_true]
    · rw [if_neg same, List.lookup_cons, beq_false_of_ne same]

/-- A table is said by its names and by what stands under each. -/
theorem entries_eq_filterMap (table : Table α) :
    table.entries = table.names.filterMap fun name =>
      (table.find? name).map fun value => (name, value) := by
  rw [names, List.filterMap_map]
  have each : ∀ entry ∈ table.entries,
      ((fun name => (table.find? name).map fun value => (name, value)) ∘ Prod.fst) entry =
        some entry := by
    intro entry member
    have found := (lookup_eq_some_iff_of_nodup table.names_nodup).mpr member
    rw [Function.comp_apply, find?, found, Option.map_some]
  rw [List.filterMap_congr each, List.filterMap_some]

theorem entries_ofList (entries : List (String × α)) :
    (ofList entries).entries = firstPlaces entries := by
  rw [entries_eq_filterMap, names_ofList, firstPlaces]
  simp only [find?_ofList]

end Table

end ScopedSchema
