import Mathlib.Data.List.Infix
import ScopedSchema.AllowList

/-!
# Allowed paths are prefixes of entries

A path is allowed exactly if its keys begin an entry, and the entries below a path are those whose
keys go on after it.
-/

namespace ScopedSchema

namespace AllowEntry

variable {entry : AllowEntry} {keys : List String}

theorem length_keys (entry : AllowEntry) : entry.keys.length = entry.segments.length := by
  simp [AllowEntry.keys, AllowEntry.segments, Path.keys]

theorem map_keyOf_drop_segments (entry : AllowEntry) (count : Nat) :
    (entry.segments.drop count).map Path.keyOf = entry.keys.drop count := by
  rw [List.map_drop]
  rfl

theorem isAt_or_isBelow_iff :
    (entry.isAt keys || entry.isBelow keys) = true ↔ keys <+: entry.keys := by
  unfold isAt isBelow
  rw [Bool.or_eq_true, Bool.and_eq_true, decide_eq_true_eq, beq_iff_eq, beq_iff_eq,
    List.prefix_iff_eq_take]
  constructor
  · intro found
    rcases found with same | ⟨_, same⟩
    · rw [same, List.take_length]
    · exact same.symm
  · intro same
    by_cases longer : keys.length < entry.keys.length
    · exact Or.inr ⟨longer, same.symm⟩
    · rw [List.take_of_length_le (by omega)] at same
      exact Or.inl same.symm

/-- An entry is below some keys if it goes on after them. -/
theorem isBelow_iff : entry.isBelow keys = true ↔ ∃ key rest, entry.keys = keys ++ key :: rest := by
  unfold isBelow
  rw [Bool.and_eq_true, decide_eq_true_eq, beq_iff_eq]
  constructor
  · intro found
    rcases found with ⟨longer, same⟩
    have more : entry.keys.drop keys.length ≠ [] := by
      intro none
      have short := List.drop_eq_nil_iff.mp none
      omega
    rcases List.exists_cons_of_ne_nil more with ⟨key, rest, split⟩
    refine ⟨key, rest, ?_⟩
    rw [← split]
    calc entry.keys
        = entry.keys.take keys.length ++ entry.keys.drop keys.length :=
          (List.take_append_drop _ _).symm
      _ = keys ++ entry.keys.drop keys.length := by rw [same]
  · intro found
    rcases found with ⟨key, rest, same⟩
    rw [same]
    simp

theorem keys_eq_of_not_isBelow (beyond : entry.isBelow keys = false)
    (begins : keys <+: entry.keys) : entry.keys = keys := by
  obtain ⟨rest, same⟩ := begins
  cases rest with
  | nil => rw [← same, List.append_nil]
  | cons key rest =>
      rw [isBelow_iff.mpr ⟨key, rest, same.symm⟩] at beyond
      cases beyond

theorem isBelow_eq_decide (entry : AllowEntry) (keys : List String) :
    entry.isBelow keys = decide (keys <+: entry.keys ∧ keys ≠ entry.keys) := by
  rw [Bool.eq_iff_iff, decide_eq_true_eq]
  constructor
  · intro below
    obtain ⟨key, rest, split⟩ := isBelow_iff.mp below
    rw [split]
    exact ⟨List.prefix_append _ _, by simp⟩
  · intro found
    obtain ⟨begins, different⟩ := found
    cases beyond : entry.isBelow keys with
    | true => rfl
    | false => exact absurd (keys_eq_of_not_isBelow beyond begins).symm different

end AllowEntry

namespace AllowList

variable {list : AllowList} {path : String}

theorem isAllowed_iff :
    list.isAllowed path = true ↔ ∃ entry ∈ list.entries, Path.keys path <+: entry.keys := by
  rw [isAllowed, List.any_eq_true]
  simp only [AllowEntry.isAt_or_isBelow_iff]

/-- Neither order nor overrides nor list markers of the entries decide what is allowed. -/
theorem isAllowed_of_perm {other : AllowList}
    (same : (other.entries.map AllowEntry.keys).Perm (list.entries.map AllowEntry.keys))
    (path : String) : other.isAllowed path = list.isAllowed path := by
  have prefixes : ∀ allow : AllowList, allow.isAllowed path = true ↔
      ∃ keys ∈ allow.entries.map AllowEntry.keys, Path.keys path <+: keys := by
    intro allow
    rw [isAllowed_iff]
    simp only [List.mem_map, exists_exists_and_eq_and]
  rw [Bool.eq_iff_iff, prefixes, prefixes]
  simp only [same.mem_iff]

theorem mem_descendants_iff {descendant : Descendant} :
    descendant ∈ list.descendants path ↔
      ∃ entry ∈ list.entries, entry.isBelow (Path.keys path) = true ∧
        descendant = ⟨entry, entry.segments.drop (Path.keys path).length,
          entry.keys.drop (Path.keys path).length⟩ := by
  unfold descendants
  simp only [List.mem_map, List.mem_filter]
  constructor
  · intro found
    rcases found with ⟨entry, ⟨member, below⟩, same⟩
    exact ⟨entry, member, below, same.symm⟩
  · intro found
    rcases found with ⟨entry, member, below, same⟩
    exact ⟨entry, ⟨member, below⟩, same.symm⟩

theorem keys_of_mem_descendants {descendant : Descendant}
    (member : descendant ∈ list.descendants path) :
    descendant.entry ∈ list.entries ∧
      descendant.entry.keys = Path.keys path ++ descendant.remainingKeys ∧
      descendant.remainingKeys ≠ [] := by
  rcases mem_descendants_iff.mp member with ⟨entry, listed, below, same⟩
  rcases AllowEntry.isBelow_iff.mp below with ⟨key, rest, split⟩
  have remaining : descendant.remainingKeys = key :: rest := by
    rw [same, split, List.drop_left]
  rw [remaining, same]
  exact ⟨listed, split, List.cons_ne_nil key rest⟩

/-- The keys that remain are those of the segments that remain. -/
theorem map_keyOf_remaining {descendant : Descendant}
    (member : descendant ∈ list.descendants path) :
    descendant.remaining.map Path.keyOf = descendant.remainingKeys := by
  rcases mem_descendants_iff.mp member with ⟨entry, _, _, same⟩
  rw [same]
  exact entry.map_keyOf_drop_segments _

theorem length_segments_le_depth {entry : AllowEntry} (member : entry ∈ list.entries) :
    entry.segments.length ≤ list.depth := by
  have bounded : ∀ (entries : List AllowEntry) (bound : Nat),
      bound ≤ entries.foldl (fun bound entry => max bound entry.segments.length) bound ∧
        ∀ entry ∈ entries, entry.segments.length ≤
          entries.foldl (fun bound entry => max bound entry.segments.length) bound := by
    intro entries
    induction entries with
    | nil => exact fun bound => ⟨Nat.le_refl bound, by simp⟩
    | cons first rest induction =>
        intro bound
        have later := induction (max bound first.segments.length)
        simp only [List.foldl_cons, List.forall_mem_cons]
        exact ⟨by omega, by omega, later.2⟩
  exact (bounded list.entries 0).2 entry member

theorem length_segments_le_depth_of_isAllowed (allowed : list.isAllowed path = true) :
    (Path.segments path).length ≤ list.depth := by
  rcases isAllowed_iff.mp allowed with ⟨entry, member, begins⟩
  have shorter := begins.length_le
  rw [AllowEntry.length_keys, Path.keys, List.length_map] at shorter
  exact Nat.le_trans shorter (length_segments_le_depth member)

end AllowList

end ScopedSchema
