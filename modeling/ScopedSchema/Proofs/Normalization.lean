import ScopedSchema.Proofs.AllowList
import ScopedSchema.Proofs.Path

/-!
# Normalized paths

A pass over a segment leaves a marker behind exactly if brackets stand in it with nothing but markers
between them: these brackets come together when the markers are dropped. For paths without such
segments normalizing again changes nothing, and no allow list tells the path from its normal form.
For every other path both fail.
-/

namespace ScopedSchema

namespace Path

/-- So many markers one after another. -/
def markers : Nat → List Char
  | 0 => []
  | count + 1 => '[' :: ']' :: markers count

/-- Somewhere in the text, brackets have nothing but markers between them, and one marker at least. -/
def Wraps (text : List Char) : Prop :=
  ∃ count, '[' :: (markers (count + 1) ++ [']']) <:+: text

/-- One pass drops all markers of the path. -/
def Settles (path : String) : Prop := ∀ segment ∈ segments path, ¬ Wraps segment.toList

/-! ## One pass over a text -/

theorem dropMarkers_of_head?_ne {character : Char} {rest : List Char}
    (plain : ¬ (character = '[' ∧ rest.head? = some ']')) :
    dropMarkers (character :: rest) = character :: dropMarkers rest := by
  rw [dropMarkers]
  intro later first second
  exact plain ⟨first, by rw [second, List.head?_cons]⟩

theorem dropMarkers_markers_append (count : Nat) (text : List Char) :
    dropMarkers (markers count ++ text) = dropMarkers text := by
  induction count with
  | zero => rfl
  | succ count induction =>
      rw [markers, List.cons_append, List.cons_append, dropMarkers]
      exact induction

/-- A bracket that opens begins a pass of its own. -/
theorem dropMarkers_append_opening (before after : List Char) :
    dropMarkers (before ++ '[' :: after) = dropMarkers before ++ dropMarkers ('[' :: after) := by
  fun_induction dropMarkers before with
  | case1 rest induction =>
      rw [List.cons_append, List.cons_append, dropMarkers]
      exact induction
  | case2 character rest plain induction =>
      rw [List.cons_append, dropMarkers_of_head?_ne, induction, List.cons_append]
      intro marker
      cases rest with
      | nil => cases marker.2
      | cons next later =>
          rw [List.cons_append, List.head?_cons, Option.some.injEq] at marker
          exact plain later marker.1 (by rw [marker.2])
  | case3 => rfl

/-- Only markers can stand before what a pass begins with a closing bracket. -/
theorem exists_markers_of_dropMarkers {text later : List Char}
    (dropped : dropMarkers text = ']' :: later) :
    ∃ count rest, text = markers count ++ ']' :: rest := by
  fun_induction dropMarkers text with
  | case1 rest induction =>
      obtain ⟨count, after, same⟩ := induction dropped
      exact ⟨count + 1, after, by rw [same]; rfl⟩
  | case2 character rest _ _ =>
      exact ⟨0, rest, by rw [(List.cons.inj dropped).1]; rfl⟩
  | case3 => cases dropped

/-- A pass leaves a marker behind exactly if brackets stand around markers. -/
theorem marker_infix_dropMarkers_iff (text : List Char) :
    ['[', ']'] <:+: dropMarkers text ↔ Wraps text := by
  constructor
  · intro left
    fun_induction dropMarkers text with
    | case1 rest induction =>
        obtain ⟨count, inside⟩ := induction left
        exact ⟨count, inside.trans (List.suffix_append ['[', ']'] rest).isInfix⟩
    | case2 character rest plain induction =>
        rcases List.infix_cons_iff.mp left with here | later
        · obtain ⟨first, here⟩ := List.cons_prefix_cons.mp here
          obtain ⟨after, closed⟩ := here
          obtain ⟨count, behind, same⟩ := exists_markers_of_dropMarkers closed.symm
          cases count with
          | zero => exact absurd same (plain behind first.symm)
          | succ count =>
              refine ⟨count, [], behind, ?_⟩
              rw [same, ← first, List.nil_append, List.cons_append, List.append_assoc]
              rfl
        · obtain ⟨count, inside⟩ := induction later
          exact ⟨count, inside.trans (List.suffix_cons character rest).isInfix⟩
    | case3 => cases List.eq_nil_of_infix_nil left
  · intro wraps
    obtain ⟨count, before, after, same⟩ := wraps
    have pass : dropMarkers ('[' :: (markers (count + 1) ++ ']' :: after)) =
        '[' :: ']' :: dropMarkers after := by
      rw [dropMarkers_of_head?_ne (by intro marker; cases marker.2), dropMarkers_markers_append,
        dropMarkers_of_head?_ne (by intro marker; cases marker.1)]
    refine ⟨dropMarkers before, dropMarkers after, ?_⟩
    have split : text = before ++ '[' :: (markers (count + 1) ++ ']' :: after) := by
      rw [← same, List.append_assoc, List.cons_append, List.append_assoc, List.singleton_append]
    rw [split, dropMarkers_append_opening, pass, List.append_assoc]
    rfl

theorem length_dropMarkers_le (text : List Char) : (dropMarkers text).length ≤ text.length := by
  fun_induction dropMarkers text with
  | case1 rest induction =>
      simp only [List.length_cons]
      omega
  | case2 character rest _ induction =>
      simp only [List.length_cons]
      omega
  | case3 => exact Nat.le_refl _

/-- A pass changes every text that has markers. -/
theorem dropMarkers_eq_self_iff {text : List Char} :
    dropMarkers text = text ↔ ¬ ['[', ']'] <:+: text := by
  constructor
  · intro kept inside
    fun_induction dropMarkers text with
    | case1 rest _ =>
        have shorter := length_dropMarkers_le rest
        have length := congrArg List.length kept
        simp only [List.length_cons] at length
        omega
    | case2 character rest plain induction =>
        rcases List.infix_cons_iff.mp inside with here | later
        · obtain ⟨first, later, closed⟩ := List.cons_prefix_cons.mp here
          exact plain later first.symm closed.symm
        · exact induction (List.cons.inj kept).2 later
    | case3 => cases List.eq_nil_of_infix_nil inside
  · exact dropMarkers_of_not_infix

theorem keyOf_eq_self_iff {segment : String} : keyOf segment = segment ↔ MarkerFree segment := by
  rw [keyOf, MarkerFree, ← dropMarkers_eq_self_iff, ← String.toList_inj, String.toList_ofList]

theorem markerFree_keyOf_iff {segment : String} :
    MarkerFree (keyOf segment) ↔ ¬ Wraps segment.toList := by
  rw [MarkerFree, keyOf, String.toList_ofList, marker_infix_dropMarkers_iff]

/-! ## Paths -/

theorem segments_ofSegments {names : List String} (some : names ≠ [])
    (free : ∀ name ∈ names, '.' ∉ name.toList) : segments (ofSegments names) = names := by
  have parts : ∀ part ∈ names.map String.toList, '.' ∉ part := by
    intro part member
    obtain ⟨name, inside, same⟩ := List.mem_map.mp member
    rw [← same]
    exact free name inside
  rw [segments, ofSegments, String.toList_ofList, Separated.split_join (by simpa using some) parts,
    List.map_map]
  simp [Function.comp_def]

/-- The segments of the normal form are the keys. -/
theorem segments_normalize (path : String) : segments (normalize path) = keys path := by
  apply segments_ofSegments
  · rw [keys, ne_eq, List.map_eq_nil_iff, ← List.length_eq_zero_iff]
    exact Nat.ne_of_gt (length_segments_pos path)
  · intro key member
    obtain ⟨segment, inside, same⟩ := List.mem_map.mp member
    rw [← same]
    exact not_mem_keyOf inside

theorem keys_normalize (path : String) : keys (normalize path) = (keys path).map keyOf := by
  rw [keys, segments_normalize]

theorem map_keyOf_eq_self_iff {names : List String} :
    names.map keyOf = names ↔ ∀ name ∈ names, MarkerFree name := by
  simp only [← keyOf_eq_self_iff]
  constructor
  · intro same name member
    exact List.map_inj_left.mp (same.trans (List.map_id names).symm) name member
  · intro same
    rw [List.map_congr_left same]
    exact List.map_id _

theorem settles_iff {path : String} : Settles path ↔ ∀ key ∈ keys path, MarkerFree key := by
  rw [keys, List.forall_mem_map]
  simp only [markerFree_keyOf_iff]
  rfl

theorem settles_iff_keys_normalize {path : String} :
    Settles path ↔ keys (normalize path) = keys path := by
  rw [settles_iff, keys_normalize, map_keyOf_eq_self_iff]

end Path

/-! ## Allow lists -/

theorem AllowList.isAllowed_of_containsPath {list : AllowList} {path : String}
    (contained : list.containsPath path = true) : list.isAllowed path = true := by
  obtain ⟨entry, member, here⟩ := List.any_eq_true.mp contained
  exact isAllowed_iff.mpr ⟨entry, member, (beq_iff_eq.mp here) ▸ List.prefix_rfl⟩

theorem AllowList.containsPath_of_mem {list : AllowList} {entry : AllowEntry} {path : String}
    (member : entry ∈ list.entries) (stored : entry.path = path) :
    list.containsPath path = true := by
  rw [← stored]
  exact List.any_eq_true.mpr ⟨entry, member, beq_self_eq_true _⟩

/-- An allow list of one path allows the normal form of the path only if a pass settles it: the keys
of the normal form are as many as those of the path. -/
theorem settles_of_isAllowed_alone {path : String}
    (allowed : (AllowList.ofPaths [path]).isAllowed (Path.normalize path) = true) :
    Path.Settles path := by
  obtain ⟨entry, member, begins⟩ := AllowList.isAllowed_iff.mp allowed
  rw [List.mem_singleton.mp member] at begins
  have length : (Path.keys (Path.normalize path)).length = (Path.keys path).length := by
    rw [Path.keys_normalize, List.length_map]
  exact Path.settles_iff_keys_normalize.mpr (begins.eq_of_length length)

/-- Paths that one pass settles have one normal form, which every allow list takes for the path
itself. Of each other path the normal form is not allowed by the path alone. -/
theorem normalize_settles_iff (path : String) :
    (Path.normalize (Path.normalize path) = Path.normalize path ↔ Path.Settles path) ∧
    ((∀ segment ∈ Path.segments (Path.normalize path), Path.MarkerFree segment) ↔
      Path.Settles path) ∧
    ((∀ list : AllowList, list.isAllowed path = list.isAllowed (Path.normalize path)) ↔
      Path.Settles path) ∧
    ((∀ list : AllowList, list.containsPath path = list.containsPath (Path.normalize path)) ↔
      Path.Settles path) ∧
    ((∀ list : AllowList, ∀ entry ∈ list.entries, entry.path = path →
      list.isAllowed (Path.normalize path) = true) ↔ Path.Settles path) := by
  have listed : AllowEntry.bare path ∈ (AllowList.ofPaths [path]).entries :=
    List.mem_singleton_self _
  have contained : (AllowList.ofPaths [path]).containsPath path = true :=
    AllowList.containsPath_of_mem listed rfl
  have settled : Path.Settles path ↔ Path.keys (Path.normalize path) = Path.keys path :=
    Path.settles_iff_keys_normalize
  refine ⟨?_, ?_, ?_, ?_, ?_⟩
  · rw [settled]
    constructor
    · intro same
      rw [← Path.segments_normalize, same, Path.segments_normalize]
    · intro same
      rw [Path.normalize, same, ← Path.normalize]
  · rw [Path.segments_normalize, Path.settles_iff]
  · constructor
    · intro same
      apply settles_of_isAllowed_alone
      rw [← same]
      exact AllowList.isAllowed_of_containsPath contained
    · intro settles list
      rw [AllowList.isAllowed, AllowList.isAllowed, settled.mp settles]
  · constructor
    · intro same
      apply settles_of_isAllowed_alone
      apply AllowList.isAllowed_of_containsPath
      rw [← same]
      exact contained
    · intro settles list
      rw [AllowList.containsPath, AllowList.containsPath, settled.mp settles]
  · constructor
    · intro allowed
      exact settles_of_isAllowed_alone (allowed _ _ listed rfl)
    · intro settles list entry member stored
      apply AllowList.isAllowed_of_containsPath
      rw [AllowList.containsPath, settled.mp settles]
      exact AllowList.containsPath_of_mem member stored

/-- One marker inside another is a marker again. -/
theorem marker_normalize_nested :
    Path.normalize "[[]]" = "[]" ∧ Path.normalize (Path.normalize "[[]]") = "" ∧
      (AllowList.ofPaths ["[[]]"]).isAllowed "[[]]" = true ∧
      (AllowList.ofPaths ["[[]]"]).containsPath "[[]]" = true ∧
      (AllowList.ofPaths ["[[]]"]).isAllowed (Path.normalize "[[]]") = false ∧
      (AllowList.ofPaths ["[[]]"]).containsPath (Path.normalize "[[]]") = false := by
  decide

end ScopedSchema
