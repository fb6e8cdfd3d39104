import ScopedSchema.AllowList.Document
import ScopedSchema.Proofs.AllowList
import ScopedSchema.Proofs.Path

/-!
# An allow list is the prefix closure of its entries

However an allow list comes about, it holds the entries that were given, in order. It allows exactly
the paths whose keys begin the keys of one of them: those of the entries themselves and those with
entries below. So what is allowed is closed under taking segments away at the end, and the order of
the entries decides nothing but the order in which those below a path are listed.
-/

namespace ScopedSchema

/-! ## Dotted paths -/

theorem Path.keys_dotted (path segment : String) :
    keys (path ++ "." ++ segment) = keys path ++ keys segment := by
  have cut : (path ++ "." ++ segment).toList = path.toList ++ '.' :: segment.toList := by
    rw [String.toList_append, String.toList_append, List.append_assoc]
    rfl
  rw [keys, segments, cut, Separated.split_append_separator, List.map_append, List.map_append]
  rfl

namespace AllowList

/-! ## How allow lists come about -/

/-- The ways in which an allow list comes about, and the entries given on the way, in order. Items
of a document that give no entry are left out. -/
inductive Built : List AllowEntry → AllowList → Prop
  | empty : Built [] .empty
  | ofPaths (paths : List String) : Built (paths.map .bare) (.ofPaths paths)
  | ofValue {items : List Value} {list : AllowList} : ofValue? (.list items) = some list →
      Built (items.filterMap fun item => (AllowEntry.ofValue? item).join) list
  | push {given : List AllowEntry} {list : AllowList} (entry : AllowEntry) : Built given list →
      Built (given ++ [entry]) (list.push entry)

theorem filterMap_join_of_mapM {α β : Type} {decode : α → Option (Option β)} {items : List α}
    {found : List (Option β)} (all : items.mapM decode = some found) :
    items.filterMap (fun item => (decode item).join) = found.filterMap id := by
  induction items generalizing found with
  | nil =>
      rw [← Option.some.inj all]
      rfl
  | cons item rest induction =>
      rw [List.mapM_cons, Option.bind_eq_bind, Option.bind_eq_some_iff] at all
      obtain ⟨first, decoded, all⟩ := all
      obtain ⟨others, later, same⟩ := Option.bind_eq_some_iff.mp all
      rw [← Option.some.inj same, List.filterMap_cons, List.filterMap_cons, induction later,
        decoded]
      rfl

theorem Built.entries_eq {given : List AllowEntry} {list : AllowList} (built : Built given list) :
    list.entries = given := by
  induction built with
  | empty => rfl
  | ofPaths paths => rfl
  | ofValue read =>
      obtain ⟨found, all, same⟩ := Option.map_eq_some_iff.mp read
      rw [← same, filterMap_join_of_mapM all]
  | push entry _ induction => rw [AllowList.push, induction]

/-! ## Decisions -/

variable {list : AllowList}

theorem containsPath_iff {path : String} :
    list.containsPath path = true ↔ ∃ entry ∈ list.entries, entry.keys = Path.keys path := by
  rw [containsPath, List.any_eq_true]
  simp only [AllowEntry.isAt, beq_iff_eq]

theorem descendants_eq_nil_iff {path : String} :
    list.descendants path = [] ↔
      ∀ entry ∈ list.entries, entry.isBelow (Path.keys path) = false := by
  rw [descendants, List.map_eq_nil_iff, List.filter_eq_nil_iff]
  simp only [Bool.not_eq_true]

/-- What is allowed is an entry or has entries below. -/
theorem isAllowed_iff_containsPath_or_below {path : String} :
    list.isAllowed path = true ↔ list.containsPath path = true ∨ list.descendants path ≠ [] := by
  rw [ne_eq, descendants_eq_nil_iff, isAllowed, List.any_eq_true, containsPath, List.any_eq_true]
  simp only [Bool.or_eq_true, and_or_left, exists_or, not_forall, Bool.not_eq_false, exists_prop]

theorem isAllowed_of_dotted {path segment : String}
    (allowed : list.isAllowed (path ++ "." ++ segment) = true) : list.isAllowed path = true := by
  obtain ⟨entry, member, begins⟩ := isAllowed_iff.mp allowed
  rw [Path.keys_dotted] at begins
  exact isAllowed_iff.mpr ⟨entry, member, (List.prefix_append _ _).trans begins⟩

/-! ## The order of the entries -/

section

variable {other : AllowList} (perm : other.entries.Perm list.entries) (path : String)

include perm

theorem containsPath_of_perm : other.containsPath path = list.containsPath path := by
  rw [Bool.eq_iff_iff, containsPath_iff, containsPath_iff]
  simp only [perm.mem_iff]

theorem perm_descendants : (other.descendants path).Perm (list.descendants path) :=
  (perm.filter _).map _

end

/-! ## Entries below a path -/

/-- The entries that go on after some keys, in order. -/
def below (keys : List String) (entries : List AllowEntry) : List AllowEntry :=
  entries.filter fun entry => keys <+: entry.keys ∧ keys ≠ entry.keys

theorem map_entry_descendants (list : AllowList) (path : String) :
    (list.descendants path).map Descendant.entry = below (Path.keys path) list.entries := by
  rw [descendants, List.map_map, Function.comp_def, List.map_id', below]
  simp only [AllowEntry.isBelow_eq_decide]

theorem remaining_of_mem_descendants {path : String} {descendant : Descendant}
    (member : descendant ∈ list.descendants path) :
    descendant.remaining = descendant.entry.segments.drop (Path.keys path).length := by
  obtain ⟨entry, _, _, same⟩ := mem_descendants_iff.mp member
  rw [same]

/-- A path is allowed exactly if its keys begin those of an entry that was given, and the entries
below it are those that go on after its keys. -/
theorem prefix_closure_of_built {given : List AllowEntry} {list : AllowList}
    (built : Built given list) (path : String) :
    (list.isAllowed path = true ↔ ∃ entry ∈ given, Path.keys path <+: entry.keys) ∧
    (list.containsPath path = true ↔ ∃ entry ∈ given, entry.keys = Path.keys path) ∧
    (list.isAllowed path = true ↔ list.containsPath path = true ∨ list.descendants path ≠ []) ∧
    (∀ segment, list.isAllowed (path ++ "." ++ segment) = true → list.isAllowed path = true) ∧
    (∀ {given' : List AllowEntry} {other : AllowList}, Built given' other → given'.Perm given →
      other.isAllowed path = list.isAllowed path ∧
      other.containsPath path = list.containsPath path ∧
      (other.descendants path).Perm (list.descendants path)) ∧
    (list.descendants path).map Descendant.entry = below (Path.keys path) given ∧
    ∀ descendant ∈ list.descendants path,
      Path.keys path ++ descendant.remainingKeys = descendant.entry.keys ∧
      descendant.remaining = descendant.entry.segments.drop (Path.keys path).length ∧
      descendant.remaining.map Path.keyOf = descendant.remainingKeys := by
  rw [← built.entries_eq]
  refine ⟨isAllowed_iff, containsPath_iff, isAllowed_iff_containsPath_or_below,
    fun _ => isAllowed_of_dotted, ?_, map_entry_descendants list path, ?_⟩
  · intro given' other built' perm
    rw [← built'.entries_eq] at perm
    exact ⟨isAllowed_of_perm (perm.map _) path, containsPath_of_perm perm path,
      perm_descendants perm path⟩
  · intro descendant member
    obtain ⟨_, split, _⟩ := keys_of_mem_descendants member
    exact ⟨split.symm, remaining_of_mem_descendants member, map_keyOf_remaining member⟩

/-- A path, a number and a table with a message. -/
def postItems : List Value :=
  [.string "where.posts[].title", .natural 7,
    .table [(.string "name", .string "where.name"), (.string "message", .string "short")]]

def postEntries : List AllowEntry :=
  [.bare "where.posts[].title", .override "where.name" ⟨none, some "short"⟩, .bare "where..posts"]

/-- The last entry is put behind those of the document. Its second segment is empty, as is a segment
that consists of a marker. -/
theorem prefix_closure_of_built_posts :
    ∃ list, Built postEntries list ∧ list.isAllowed "where.[]" = true ∧
      list.isAllowed "where" = true ∧ list.containsPath "where.[]" = false ∧
      (list.descendants "where.[]").map Descendant.entry = [.bare "where..posts"] ∧
      ∀ other, Built postEntries.reverse other → other.isAllowed "where.[]" = true := by
  have built : Built postEntries (.push ⟨postEntries.take 2⟩ (.bare "where..posts")) :=
    .push (.bare "where..posts") (.ofValue (show ofValue? (.list postItems) = _ from rfl))
  obtain ⟨allowed, _, _, _, reordered, below, _⟩ :=
    prefix_closure_of_built built "where.[]"
  have listed : (AllowList.push ⟨postEntries.take 2⟩ (.bare "where..posts")).isAllowed
      "where.[]" = true :=
    allowed.mpr ⟨.bare "where..posts", by simp [postEntries], by decide⟩
  refine ⟨_, built, listed, ?_, ?_, ?_, ?_⟩
  · obtain ⟨_, _, _, shorter, _⟩ := prefix_closure_of_built built "where"
    exact shorter "[]" listed
  · rfl
  · rw [below]
    rfl
  · intro other built'
    rw [(reordered built' (List.reverse_perm _)).1, listed]

end AllowList

end ScopedSchema
