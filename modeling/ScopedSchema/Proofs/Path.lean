import ScopedSchema.Path
import ScopedSchema.Proofs.Text.Separated

/-!
# Paths grow

Appending a segment makes a path longer, unless the path was empty: the empty path has one segment
already, and below it the appended text stands alone. The keys of the longer path are those of the
shorter one and those of the appended text.
-/

namespace ScopedSchema

namespace Path

theorem length_segments_pos (path : String) : 0 < (segments path).length := by
  rw [segments, List.length_map, List.length_pos_iff]
  exact Separated.split_ne_nil '.' path.toList

@[simp] theorem child_empty (segment : String) : child "" segment = segment := by
  simp [child]

theorem child_eq_empty_iff {path segment : String} :
    child path segment = "" ↔ path = "" ∧ segment = "" := by
  unfold child
  by_cases empty : path = ""
  · simp [empty]
  · have more : path.isEmpty = false := by simpa using empty
    simp [more, empty]

theorem length_segments_lt_child {path : String} (more : path ≠ "") (segment : String) :
    (segments path).length < (segments (child path segment)).length := by
  have filled : path.isEmpty = false := by simpa using more
  have positive := length_segments_pos segment
  rw [segments_child, filled]
  simp only [Bool.false_eq_true, if_false, List.length_append]
  omega

theorem keys_child {path : String} (more : path ≠ "") (segment : String) :
    keys (child path segment) = keys path ++ keys segment := by
  have filled : path.isEmpty = false := by simpa using more
  rw [keys, segments_child, filled]
  simp only [Bool.false_eq_true, if_false, List.map_append, keys]

/-- The path goes through the place that the keys spell, or stands there. -/
def Within (names : List String) (path : String) : Prop := path ≠ "" ∧ names <+: keys path

theorem within_child {path : String} {names : List String} (inside : Within names path)
    (segment : String) : Within names (child path segment) := by
  refine ⟨fun empty => inside.1 (child_eq_empty_iff.mp empty).1, ?_⟩
  rw [keys_child inside.1]
  exact inside.2.trans (List.prefix_append _ _)

/-! ## Single segments -/

/-- No list marker stands anywhere in the segment. -/
def MarkerFree (segment : String) : Prop := ¬ ['[', ']'] <:+: segment.toList

instance (segment : String) : Decidable (MarkerFree segment) :=
  inferInstanceAs (Decidable (¬ _))

theorem dropMarkers_of_not_infix {text : List Char} (free : ¬ ['[', ']'] <:+: text) :
    dropMarkers text = text := by
  fun_induction dropMarkers text with
  | case1 rest _ => exact absurd ⟨[], rest, rfl⟩ free
  | case2 character rest _ induction =>
      have behind : ¬ ['[', ']'] <:+: rest := by
        intro inside
        exact free (inside.trans (List.suffix_cons character rest).isInfix)
      rw [induction behind]
  | case3 => rfl

theorem keyOf_of_markerFree {segment : String} (free : MarkerFree segment) :
    keyOf segment = segment := by
  rw [keyOf, dropMarkers_of_not_infix free, String.ofList_toList]

theorem mem_of_mem_dropMarkers {text : List Char} {character : Char}
    (member : character ∈ dropMarkers text) : character ∈ text := by
  fun_induction dropMarkers text with
  | case1 rest induction =>
      have inside := induction member
      exact List.mem_cons_of_mem _ (List.mem_cons_of_mem _ inside)
  | case2 first rest _ induction =>
      rcases List.mem_cons.mp member with same | later
      · exact same ▸ List.mem_cons_self
      · exact List.mem_cons_of_mem _ (induction later)
  | case3 => exact member

theorem not_mem_keyOf {segment path : String} (member : segment ∈ segments path) :
    '.' ∉ (keyOf segment).toList := by
  obtain ⟨part, inside, same⟩ := List.mem_map.mp member
  rw [keyOf, String.toList_ofList, ← same, String.toList_ofList]
  intro dotted
  exact Separated.not_mem_of_mem_split inside (mem_of_mem_dropMarkers dotted)

/-- The key of a segment is a path of that one key. -/
theorem keys_keyOf {segment path : String} (member : segment ∈ segments path) :
    keys (keyOf segment) = [keyOf (keyOf segment)] := by
  rw [keys, segments, Separated.split_of_not_mem (not_mem_keyOf member)]
  simp only [List.map_cons, List.map_nil, String.ofList_toList]

/-! ## Names -/

/-- A key that is a path of its own: that of itself alone. -/
def IsName (key : String) : Prop := key ≠ "" ∧ keys key = [key]

theorem isName_of_mem_keys {path key : String} (member : key ∈ keys path) (filled : key ≠ "")
    (free : MarkerFree key) : IsName key := by
  obtain ⟨segment, inside, same⟩ := List.mem_map.mp member
  have alone := keys_keyOf inside
  rw [same, keyOf_of_markerFree free] at alone
  exact ⟨filled, alone⟩

/-- No segment of the path is empty or has list markers. -/
def Plain (path : String) : Prop := ∀ segment ∈ segments path, segment ≠ "" ∧ MarkerFree segment

instance (path : String) : Decidable (Plain path) := inferInstanceAs (Decidable (∀ _ ∈ _, _))

theorem Plain.keys_eq {path : String} (plain : Plain path) : keys path = segments path := by
  have same : ∀ segment ∈ segments path, keyOf segment = id segment := by
    intro segment member
    exact keyOf_of_markerFree (plain segment member).2
  rw [keys, List.map_congr_left same, List.map_id]

theorem Plain.isName {path key : String} (plain : Plain path) (member : key ∈ segments path) :
    IsName key := by
  have inside : key ∈ keys path := by
    rw [plain.keys_eq]
    exact member
  exact isName_of_mem_keys inside (plain key member).1 (plain key member).2

/-- The path consists of these keys. The empty path consists of none. -/
def Spells (path : String) (names : List String) : Prop :=
  (path = "" ∧ names = []) ∨ (path ≠ "" ∧ keys path = names)

theorem keys_child_of_spells {path key : String} {names : List String}
    (spells : Spells path names) (name : IsName key) :
    child path key ≠ "" ∧ keys (child path key) = names ++ [key] := by
  rcases spells with ⟨root, none⟩ | ⟨more, same⟩
  · rw [root, child_empty, none]
    exact name
  · refine ⟨fun empty => more (child_eq_empty_iff.mp empty).1, ?_⟩
    rw [keys_child more, same, name.2]

/-- One more segment on the way through a path of names. -/
theorem Plain.step {whole path segment : String} {names rest : List String} (plain : Plain whole)
    (spells : Spells path names) (split : segments whole = names ++ segment :: rest) :
    endsInMarker segment = false ∧ segments whole = (names ++ [keyOf segment]) ++ rest ∧
      child path (keyOf segment) ≠ "" ∧
      keys (child path (keyOf segment)) = names ++ [keyOf segment] := by
  have inside : segment ∈ segments whole := by
    rw [split]
    exact List.mem_append_right _ List.mem_cons_self
  have free := (plain segment inside).2
  have named := keyOf_of_markerFree free
  have unmarked : endsInMarker segment = false := by
    apply Bool.eq_false_iff.mpr
    intro marked
    exact free (List.isSuffixOf_iff_suffix.mp marked).isInfix
  rw [named]
  refine ⟨unmarked, ?_, keys_child_of_spells spells (plain.isName inside)⟩
  rw [← List.append_cons]
  exact split

/-! ## Names without markers -/

/-- The path that a walk along these keys builds up. -/
def joined (keys : List String) : String := keys.foldl child ""

/-- Takes a character in behind those that are kept, the last first. A closing bracket takes an
opening one right before it away. -/
def keep (kept : List Char) (character : Char) : List Char :=
  if character = ']' ∧ kept.head? = some '[' then kept.tail else character :: kept

/-- The segment without list markers. Markers that come together only when others are dropped are
dropped too. -/
def bareOf (segment : String) : String := String.ofList (segment.toList.foldl keep []).reverse

theorem foldl_keep_dropMarkers (text kept : List Char) :
    (dropMarkers text).foldl keep kept = text.foldl keep kept := by
  fun_induction dropMarkers text generalizing kept with
  | case1 rest induction =>
      have opened : keep kept '[' = '[' :: kept := if_neg fun closing => by cases closing.1
      have closed : keep ('[' :: kept) ']' = kept := if_pos ⟨rfl, rfl⟩
      rw [List.foldl_cons, List.foldl_cons, opened, closed]
      exact induction kept
  | case2 character rest _ induction =>
      rw [List.foldl_cons, List.foldl_cons]
      exact induction (keep kept character)
  | case3 => rfl

theorem bareOf_keyOf (segment : String) : bareOf (keyOf segment) = bareOf segment := by
  rw [bareOf, keyOf, String.toList_ofList, foldl_keep_dropMarkers, bareOf]

end Path

end ScopedSchema
