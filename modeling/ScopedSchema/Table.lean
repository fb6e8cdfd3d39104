/-!
Tables keyed by name. A table keeps its names in the order of their first insertion and holds no
name twice: inserting a name that is already present replaces its value in place.
-/

namespace ScopedSchema

/-- Replaces the value of `name` where it stands, or appends it. -/
def insertEntry {α : Type} (name : String) (value : α) : List (String × α) → List (String × α)
  | [] => [(name, value)]
  | (other, current) :: rest =>
    if other = name then (other, value) :: rest
    else (other, current) :: insertEntry name value rest

theorem names_insertEntry {α : Type} (name : String) (value : α) (entries : List (String × α)) :
    (insertEntry name value entries).map Prod.fst =
      if name ∈ entries.map Prod.fst then entries.map Prod.fst
      else entries.map Prod.fst ++ [name] := by
  induction entries with
  | nil => simp [insertEntry]
  | cons entry rest induction =>
    obtain ⟨other, current⟩ := entry
    by_cases same : other = name
    · simp [insertEntry, same]
    · have different : ¬ name = other := fun equal => same equal.symm
      simp only [insertEntry, same, if_false, List.map_cons, induction, List.mem_cons,
        different, false_or]
      split <;> simp

theorem names_insertEntry_nodup {α : Type} (name : String) (value : α)
    {entries : List (String × α)} (nodup : (entries.map Prod.fst).Nodup) :
    ((insertEntry name value entries).map Prod.fst).Nodup := by
  rw [names_insertEntry]
  split
  · exact nodup
  · rename_i absent
    rw [List.nodup_append]
    exact ⟨nodup, by simp, fun other member last final => by
      rw [List.mem_singleton.mp final]
      exact fun same => absent (same ▸ member)⟩

theorem lookup_insertEntry {α : Type} (name query : String) (value : α)
    (entries : List (String × α)) :
    (insertEntry name value entries).lookup query =
      if query = name then some value else entries.lookup query := by
  induction entries with
  | nil =>
    by_cases same : query = name
    · subst same; simp [insertEntry]
    · simp [insertEntry, List.lookup_cons, beq_false_of_ne same, same]
  | cons entry rest induction =>
    obtain ⟨other, current⟩ := entry
    by_cases found : other = name
    · subst found
      by_cases same : query = other
      · subst same; simp [insertEntry]
      · simp [insertEntry, List.lookup_cons, beq_false_of_ne same, same]
    · by_cases here : query = other
      · subst here; simp [insertEntry, found]
      · simp [insertEntry, List.lookup_cons, found, beq_false_of_ne here, induction]

theorem mem_names_of_lookup {α : Type} {name : String} {value : α}
    {entries : List (String × α)} (found : entries.lookup name = some value) :
    name ∈ entries.map Prod.fst := by
  induction entries with
  | nil => simp at found
  | cons entry rest induction =>
    obtain ⟨other, current⟩ := entry
    by_cases same : name = other
    · simp [same]
    · rw [List.lookup_cons, beq_false_of_ne same] at found
      exact List.mem_cons_of_mem _ (induction found)

structure Table (α : Type) where
  entries : List (String × α)
  names_nodup : (entries.map Prod.fst).Nodup
  deriving DecidableEq

namespace Table

variable {α β : Type}

def empty : Table α := ⟨[], by simp⟩

instance : Inhabited (Table α) := ⟨empty⟩

def names (table : Table α) : List String := table.entries.map Prod.fst

def size (table : Table α) : Nat := table.entries.length

def isEmpty (table : Table α) : Bool := table.entries.isEmpty

def find? (table : Table α) (name : String) : Option α := table.entries.lookup name

def contains (table : Table α) (name : String) : Bool := (table.find? name).isSome

def insert (table : Table α) (name : String) (value : α) : Table α :=
  ⟨insertEntry name value table.entries, names_insertEntry_nodup name value table.names_nodup⟩

/-- Inserts the entries one after another, so a repeated name keeps its first place and takes its
last value. -/
def ofList (entries : List (String × α)) : Table α :=
  entries.foldl (fun table entry => table.insert entry.1 entry.2) empty

def map (change : α → β) (table : Table α) : Table β :=
  ⟨table.entries.map fun entry => (entry.1, change entry.2), by
    have names : (table.entries.map fun entry => (entry.1, change entry.2)).map Prod.fst =
        table.entries.map Prod.fst := by
      simp [List.map_map, Function.comp_def]
    rw [names]
    exact table.names_nodup⟩

theorem find?_insert (table : Table α) (name query : String) (value : α) :
    (table.insert name value).find? query =
      if query = name then some value else table.find? query :=
  lookup_insertEntry name query value table.entries

theorem mem_names_of_find? {table : Table α} {name : String} {value : α}
    (found : table.find? name = some value) : name ∈ table.names :=
  mem_names_of_lookup found

theorem names_insert (table : Table α) (name : String) (value : α) :
    (table.insert name value).names =
      if name ∈ table.names then table.names else table.names ++ [name] :=
  names_insertEntry name value table.entries

end Table

end ScopedSchema
