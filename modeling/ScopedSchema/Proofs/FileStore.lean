import ScopedSchema.FileStore
import ScopedSchema.Proofs.FilePath

/-!
# Files and the ways to them

A path leads to one place, whatever is stored there, and it can be followed exactly if every place
on its way is a directory. Making directories only fills places that were empty; a file that is
written takes its own place and no other, and unless it is special it can be read back by every path
to this place.
-/

namespace ScopedSchema

/-! ## Ways and places -/

namespace FileStore

/-- Where a name leads from a place. -/
def stepFrom (location : Location) (name : String) : Location :=
  if name = "." then location else if name = ".." then outer location else location ++ [name]

/-- The places that the names lead out of, from the first on. -/
def wayFrom : Location → List String → List Location
  | _, [] => []
  | location, name :: rest => location :: wayFrom (stepFrom location name) rest

theorem wayFrom_append (location : Location) (names others : List String) :
    wayFrom location (names ++ others) =
      wayFrom location names ++ wayFrom (names.foldl stepFrom location) others := by
  induction names generalizing location with
  | nil => rfl
  | cons name rest induction =>
      rw [List.cons_append, wayFrom, wayFrom, induction]
      rfl

theorem foldl_stepFrom_dots {dots : List String} (idle : ∀ dot ∈ dots, dot = ".")
    (location : Location) : dots.foldl stepFrom location = location := by
  induction dots with
  | nil => rfl
  | cons dot rest induction =>
      rw [List.forall_mem_cons] at idle
      rw [List.foldl_cons, idle.1]
      exact induction idle.2

theorem mem_wayFrom_dots {dots : List String} (idle : ∀ dot ∈ dots, dot = ".")
    {location stop : Location} (member : stop ∈ wayFrom location dots) : stop = location := by
  induction dots with
  | nil => cases member
  | cons dot rest induction =>
      rw [List.forall_mem_cons] at idle
      rw [wayFrom, idle.1] at member
      rcases List.mem_cons.mp member with here | later
      · exact here
      · exact induction idle.2 later

end FileStore

namespace FilePath

/-- Where a path begins: at the root, or in the working directory. -/
def start (path : FilePath) (working : Location) : Location :=
  if path.isAbsolute then [] else working

/-- The places that have to be directories for the path to be followed. -/
def way (path : FilePath) (working : Location) : List Location :=
  FileStore.wayFrom (path.start working) path.names

/-- The place that the path leads to from the working directory. -/
def place (path : FilePath) (working : Location) : Location :=
  path.names.foldl FileStore.stepFrom (path.start working)

/-- The path is not too long, nor is any name in it, and it has no character that must not stand in
paths. -/
structure Sound (path : FilePath) : Prop where
  filled : path.text ≠ ""
  clean : '\x00' ∉ path.text.toList
  short : path.text.utf8ByteSize < 4096
  names : ∀ name ∈ path.names, name.utf8ByteSize ≤ 255

theorem Inside.start_eq {outer path : FilePath} (inside : Inside outer path) :
    path.start = outer.start := by
  funext working
  rw [start, start, inside.isAbsolute]

theorem Inside.filled {outer path : FilePath} (inside : Inside outer path) : path.text ≠ "" := by
  intro empty
  obtain ⟨dots, name, _, names⟩ := inside.names
  have none : path.names = [] := by
    rw [FilePath.names, empty]
    rfl
  rw [none] at names
  simp at names

/-- A directory lies on the way to what is inside it. -/
theorem Inside.mem_way_iff {outer path : FilePath} (inside : Inside outer path)
    {working stop : Location} :
    stop ∈ path.way working ↔ stop ∈ outer.way working ∨ stop = outer.place working := by
  obtain ⟨dots, name, idle, names⟩ := inside.names
  have rest : path.way working = outer.way working ++
      FileStore.wayFrom (outer.place working) dots ++ [outer.place working] := by
    rw [way, names, inside.start_eq, FileStore.wayFrom_append, FileStore.wayFrom_append,
      List.foldl_append, FileStore.foldl_stepFrom_dots idle]
    rfl
  rw [rest, List.mem_append, List.mem_append, List.mem_singleton]
  constructor
  · intro member
    rcases member with (before | dotted) | last
    · exact Or.inl before
    · exact Or.inr (FileStore.mem_wayFrom_dots idle dotted)
    · exact Or.inr last
  · intro member
    exact member.imp Or.inl id

theorem Sound.of_inside {outer path : FilePath} (sound : path.Sound) (inside : Inside outer path)
    (filled : outer.text ≠ "") : outer.Sound := by
  obtain ⟨rest, text⟩ := inside.text
  obtain ⟨dots, name, _, names⟩ := inside.names
  have short := sound.short
  rw [text, String.utf8ByteSize_append] at short
  refine ⟨filled, ?_, by omega, ?_⟩
  · intro found
    apply sound.clean
    rw [text, String.toList_append]
    exact List.mem_append_left _ found
  · intro part member
    apply sound.names
    rw [names, List.append_assoc]
    exact List.mem_append_left _ member

/-- The directories around a path lie on the way to it. -/
theorem place_mem_way_of_mem_parents {path outer : FilePath} (member : outer ∈ path.parents)
    (working : Location) : outer.place working ∈ path.way working := by
  obtain ⟨absolute, name, rest, names⟩ := names_of_mem_parents member
  have start : path.start working = outer.start working := by
    rw [FilePath.start, FilePath.start, absolute]
  rw [way, names, start, FileStore.wayFrom_append]
  exact List.mem_append_right _ List.mem_cons_self

section

variable {name : String} (named : IsFileName name) (base : FilePath) (working : Location)

include named

theorem start_join : (base.join ⟨name⟩).start working = base.start working := by
  rw [FilePath.start, FilePath.start, isAbsolute_join named]

/-- The way to a file in a directory leads through the directory. -/
theorem way_join :
    (base.join ⟨name⟩).way working = base.way working ++ [base.place working] := by
  rw [way, names_join named, start_join named, FileStore.wayFrom_append]
  rfl

/-- A file in a directory lies right in it. -/
theorem place_join (inner : name ≠ "." ∧ name ≠ "..") :
    (base.join ⟨name⟩).place working = base.place working ++ [name] := by
  rw [place, names_join named, start_join named, List.foldl_append, List.foldl_cons,
    List.foldl_nil, FileStore.stepFrom, if_neg inner.1, if_neg inner.2]
  rfl

end

end FilePath

namespace FileStore

variable {store next : FileStore} {path : FilePath}

theorem entry?_of_isGround {location : Location} (ground : store.isGround location = true) :
    store.entry? location = some .directory := if_pos ground

theorem isGround_eq_false {location : Location}
    (vacant : store.entry? location ≠ some .directory) : store.isGround location = false := by
  by_contra ground
  exact vacant (entry?_of_isGround (by simpa using ground))

theorem entry?_start (path : FilePath) :
    store.entry? (path.start store.working) = some .directory := by
  apply entry?_of_isGround
  unfold FilePath.start
  cases path.isAbsolute with
  | true => rfl
  | false => exact List.isPrefixOf_iff_prefix.mpr List.prefix_rfl

theorem entry?_of_special? {location : Location} {file : SpecialFile}
    (special : store.special? location = some file) :
    store.entry? location = some (.file "") := by
  have free : store.isGround location = false := by
    unfold special? at special
    by_contra ground
    rw [if_pos (by simpa using ground)] at special
    cases special
  rw [FileStore.entry?, free, special]
  rfl

/-! ## Following a path -/

theorem enter_eq_ok_iff {location target : Location} {name : String} :
    store.enter location name = .ok target ↔
      store.entry? location = some .directory ∧ name.utf8ByteSize ≤ 255 ∧
        target = stepFrom location name := by
  unfold enter
  cases store.entry? location with
  | none => simp
  | some entry =>
      cases entry with
      | file text => simp
      | directory =>
          unfold stepFrom
          by_cases dot : name = "."
          · have short : ".".utf8ByteSize ≤ 255 := by decide
            simp [dot, short, eq_comm]
          · by_cases dots : name = ".."
            · have short : "..".utf8ByteSize ≤ 255 := by decide
              simp [dots, short, eq_comm]
            · by_cases short : name.utf8ByteSize ≤ 255
              · have fits : ¬ 255 < name.utf8ByteSize := by omega
                simp [dot, dots, short, fits, eq_comm]
              · have long : 255 < name.utf8ByteSize := by omega
                simp [dot, dots, short, long]

theorem foldlM_enter_eq_ok_iff {names : List String} {location target : Location} :
    names.foldlM store.enter location = .ok target ↔
      (∀ stop ∈ wayFrom location names, store.entry? stop = some .directory) ∧
        (∀ name ∈ names, name.utf8ByteSize ≤ 255) ∧ target = names.foldl stepFrom location := by
  induction names generalizing location with
  | nil => simp [wayFrom, pure, Except.pure, eq_comm]
  | cons name rest induction =>
      rw [List.foldlM_cons, wayFrom, List.forall_mem_cons, List.forall_mem_cons, List.foldl_cons]
      cases entered : store.enter location name with
      | error problem =>
          constructor
          · intro found
            cases found
          · intro found
            rw [enter_eq_ok_iff.mpr ⟨found.1.1, found.2.1.1, rfl⟩] at entered
            cases entered
      | ok middle =>
          obtain ⟨here, short, same⟩ := enter_eq_ok_iff.mp entered
          rw [← same]
          refine Iff.trans induction ?_
          simp only [here, short, true_and]

/-- A way that is only interrupted where nothing is ends there. -/
theorem foldlM_enter_missing {names : List String} {location : Location}
    (short : ∀ name ∈ names, name.utf8ByteSize ≤ 255)
    (passable : ∀ stop ∈ wayFrom location names,
      store.entry? stop = none ∨ store.entry? stop = some .directory)
    (interrupted : ¬ ∀ stop ∈ wayFrom location names, store.entry? stop = some .directory) :
    names.foldlM store.enter location = .error .missing := by
  induction names generalizing location with
  | nil => exact absurd (fun _ member => nomatch member) interrupted
  | cons name rest induction =>
      rw [List.forall_mem_cons] at short
      rw [wayFrom, List.forall_mem_cons] at passable interrupted
      rw [List.foldlM_cons]
      rcases passable.1 with none | here
      · have stopped : store.enter location name = .error .missing := by
          rw [enter, none]
        rw [stopped]
        rfl
      · rw [enter_eq_ok_iff.mpr ⟨here, short.1, rfl⟩]
        exact induction short.2 passable.2 fun all => interrupted ⟨here, all⟩

/-- The path can be followed to its place. -/
structure Leads (store : FileStore) (path : FilePath) : Prop where
  sound : path.Sound
  way : ∀ stop ∈ path.way store.working, store.entry? stop = some .directory

theorem locate_eq_ok_iff {target : Location} :
    store.locate path = .ok target ↔
      Leads store path ∧ target = path.place store.working := by
  have filled : path.text.isEmpty = true ↔ path.text = "" := String.isEmpty_iff
  have clean : path.text.toList.contains '\x00' = true ↔ '\x00' ∈ path.text.toList :=
    List.contains_iff_mem
  have start : (if path.isAbsolute then [] else store.working) = path.start store.working := rfl
  unfold locate
  rw [start]
  split
  · rename_i empty
    simp only [reduceCtorEq, false_iff, not_and]
    exact fun leads => absurd (filled.mp empty) leads.sound.filled
  · rename_i more
    split
    · rename_i found
      simp only [reduceCtorEq, false_iff, not_and]
      exact fun leads => absurd (clean.mp found) leads.sound.clean
    · rename_i absent
      split
      · rename_i long
        simp only [reduceCtorEq, false_iff, not_and]
        exact fun leads => absurd leads.sound.short (Nat.not_lt.mpr long)
      · rename_i short
        rw [foldlM_enter_eq_ok_iff]
        constructor
        · intro found
          obtain ⟨way, names, same⟩ := found
          exact ⟨⟨⟨fun empty => more (filled.mpr empty), fun found => absent (clean.mpr found),
            Nat.not_le.mp short, names⟩, way⟩, same⟩
        · intro found
          obtain ⟨leads, same⟩ := found
          exact ⟨leads.way, leads.sound.names, same⟩

theorem locate_cases (store : FileStore) (path : FilePath) :
    (store.locate path = .ok (path.place store.working) ∧ Leads store path) ∨
      ∃ problem, store.locate path = .error problem ∧ ¬ Leads store path := by
  by_cases leads : Leads store path
  · exact Or.inl ⟨locate_eq_ok_iff.mpr ⟨leads, rfl⟩, leads⟩
  · cases located : store.locate path with
    | ok target => exact absurd (locate_eq_ok_iff.mp located).1 leads
    | error problem => exact Or.inr ⟨problem, rfl, leads⟩

theorem locate_of_sound (sound : path.Sound) :
    store.locate path = path.names.foldlM store.enter (path.start store.working) := by
  have filled : path.text.isEmpty = false := by
    simpa using sound.filled
  have clean : path.text.toList.contains '\x00' = false := by
    simpa using sound.clean
  rw [locate, filled, clean, if_neg (Nat.not_le.mpr sound.short)]
  rfl

theorem locate_missing (sound : path.Sound)
    (passable : ∀ stop ∈ path.way store.working,
      store.entry? stop = none ∨ store.entry? stop = some .directory)
    (interrupted : ¬ Leads store path) : store.locate path = .error .missing := by
  rw [locate_of_sound sound]
  exact foldlM_enter_missing sound.names passable fun way => interrupted ⟨sound, way⟩

/-! ## Files and directories -/

theorem lookup_setEntry {entries : List (Location × FileEntry)} {location other : Location}
    {entry : FileEntry} :
    (setEntry location entry entries).lookup other =
      if other = location then some entry else entries.lookup other := by
  have different : ∀ {location : Location}, other ≠ location → (other == location) = false :=
    fun apart => by simpa using apart
  induction entries with
  | nil =>
      rw [setEntry, List.lookup_cons]
      by_cases same : other = location
      · simp [same]
      · simp [different same, same]
  | cons first rest induction =>
      obtain ⟨taken, current⟩ := first
      unfold setEntry
      by_cases here : taken = location
      · rw [if_pos here, List.lookup_cons, List.lookup_cons, here]
        by_cases same : other = location
        · simp [same]
        · simp [different same, same]
      · rw [if_neg here, List.lookup_cons, List.lookup_cons, induction]
        by_cases same : other = location
        · have apart : (location == taken) = false := by simpa using fun equal => here equal.symm
          simp [same, apart]
        · simp [same]

theorem entry?_set {location : Location} (free : store.isGround location = false)
    (regular : store.special? location = none) (entry : FileEntry) (other : Location) :
    FileStore.entry? (store.set location entry) other =
      if other = location then some entry else store.entry? other := by
  have ground : FileStore.isGround (store.set location entry) other = store.isGround other := rfl
  have special : FileStore.special? (store.set location entry) other = store.special? other := rfl
  rw [FileStore.entry?, ground, special, FileStore.entry?]
  unfold set
  rw [lookup_setEntry]
  by_cases same : other = location
  · rw [if_pos same, same, free, regular]
    simp
  · rw [if_neg same, if_neg same]

/-- What is written there can be read back: no special file is there. -/
def Regular (store : FileStore) (location : Location) : Prop := store.special? location = none

theorem regular_of_specials_eq_nil (none : store.specials = []) (location : Location) :
    store.Regular location := by
  rw [Regular, special?, none]
  split <;> rfl

/-- Who reads there finds this text. -/
def Holds (store : FileStore) (location : Location) (text : String) : Prop :=
  (∃ file, store.special? location = some file ∧ file.reading = .ok text) ∨
    (store.Regular location ∧ store.entry? location = some (.file text))

theorem Holds.eq {location : Location} {text other : String} (holds : store.Holds location text)
    (holds' : store.Holds location other) : text = other := by
  unfold Holds Regular at holds holds'
  rcases holds with ⟨file, special, answer⟩ | ⟨regular, here⟩
  · rcases holds' with ⟨file', special', answer'⟩ | ⟨regular', _⟩
    · rw [special] at special'
      rw [Option.some.inj special', answer'] at answer
      exact (Except.ok.inj answer).symm
    · rw [special] at regular'
      cases regular'
  · rcases holds' with ⟨file', special', _⟩ | ⟨_, here'⟩
    · rw [special'] at regular
      cases regular
    · rw [here] at here'
      exact FileEntry.file.inj (Option.some.inj here')

theorem read_eq_ok_iff {text : String} :
    store.read path = .ok text ↔ Leads store path ∧
      store.Holds (path.place store.working) text ∧ path.endsInSlash = false := by
  rcases locate_cases store path with ⟨located, leads⟩ | ⟨problem, located, astray⟩
  · simp only [read, located, leads, true_and, Holds, Regular]
    cases special : store.special? (path.place store.working) with
    | some file =>
        rw [entry?_of_special? special]
        cases path.endsInSlash <;> simp
    | none =>
        cases store.entry? (path.place store.working) with
        | none => simp
        | some entry =>
            cases entry with
            | directory => simp
            | file current => cases path.endsInSlash <;> simp
  · simp [read, located, astray]

theorem write_eq_ok_iff {text : String} :
    store.write path text = .ok next ↔ Leads store path ∧
      store.entry? (path.place store.working) ≠ some .directory ∧ path.endsInSlash = false ∧
      ((∃ file, store.special? (path.place store.working) = some file ∧
          file.writing = .ok () ∧ next = store) ∨
        (store.Regular (path.place store.working) ∧
          next = store.set (path.place store.working) (.file text))) := by
  rcases locate_cases store path with ⟨located, leads⟩ | ⟨problem, located, astray⟩
  · simp only [write, located, leads, true_and, Regular]
    cases special : store.special? (path.place store.working) with
    | some file =>
        obtain ⟨writing, reading⟩ := file
        rw [entry?_of_special? special]
        cases path.endsInSlash <;> cases writing <;> simp [Except.map, eq_comm]
    | none =>
        cases store.entry? (path.place store.working) with
        | none => cases path.endsInSlash <;> simp [eq_comm]
        | some entry =>
            cases entry with
            | directory => simp
            | file current => cases path.endsInSlash <;> simp [eq_comm]
  · simp [write, located, astray]

/-- What has been written to a regular file stands at its place, and everything else is as
before. -/
theorem entry?_of_write {text : String} (written : store.write path text = .ok next)
    (regular : store.Regular (path.place store.working)) (location : Location) :
    next.entry? location =
      if location = path.place store.working then some (.file text)
      else store.entry? location := by
  obtain ⟨_, vacant, _, ⟨file, special, _⟩ | ⟨_, same⟩⟩ := write_eq_ok_iff.mp written
  · rw [Regular, special] at regular
    cases regular
  · rw [same]
    exact entry?_set (isGround_eq_false vacant) regular _ location

theorem entry?_of_write_of_ne {text : String} (written : store.write path text = .ok next)
    {location : Location} (elsewhere : location ≠ path.place store.working) :
    next.entry? location = store.entry? location := by
  obtain ⟨_, _, _, ⟨file, _, _, same⟩ | ⟨regular, _⟩⟩ := write_eq_ok_iff.mp written
  · rw [same]
  · rw [entry?_of_write written regular, if_neg elsewhere]

/-! ## Surroundings -/

/-- The working directory and the special files are the same. -/
def Around (store next : FileStore) : Prop := next.toSurroundings = store.toSurroundings

namespace Around

theorem refl (store : FileStore) : Around store store := rfl

theorem trans {last : FileStore} (first : Around store next) (second : Around next last) :
    Around store last := Eq.trans second first

variable (around : Around store next)

include around

theorem working : next.working = store.working := congrArg Surroundings.working around

theorem special? (location : Location) : next.special? location = store.special? location := by
  unfold FileStore.special? isGround
  rw [around]

theorem regular_iff {location : Location} : next.Regular location ↔ store.Regular location := by
  rw [Regular, Regular, around.special?]

/-- A path can be followed as long as the directories stay. -/
theorem leads (kept : ∀ location, store.entry? location = some .directory →
    next.entry? location = some .directory) (leads : Leads store path) : Leads next path := by
  refine ⟨leads.sound, fun stop member => kept stop (leads.way stop ?_)⟩
  rw [around.working] at member
  exact member

theorem holds {location : Location} {text : String}
    (same : next.entry? location = store.entry? location)
    (holds : store.Holds location text) : next.Holds location text := by
  unfold Holds at holds ⊢
  rw [around.special?, around.regular_iff, same]
  exact holds

end Around

theorem around_of_write {text : String} (written : store.write path text = .ok next) :
    Around store next := by
  obtain ⟨_, _, _, ⟨_, _, _, same⟩ | ⟨_, same⟩⟩ := write_eq_ok_iff.mp written <;> rw [same] <;> rfl

/-! ## Growth -/

/-- Some of these places, where nothing was, are directories now. Nothing else has changed. -/
structure Grown (places : Location → Prop) (store next : FileStore) : Prop where
  around : Around store next
  entries : ∀ location, next.entry? location = store.entry? location ∨
    (places location ∧ store.entry? location = none ∧ next.entry? location = some .directory)

namespace Grown

variable {places : Location → Prop} {last : FileStore}

theorem refl (places : Location → Prop) (store : FileStore) : Grown places store store :=
  ⟨.refl store, fun _ => Or.inl rfl⟩

theorem trans (first : Grown places store next) (second : Grown places next last) :
    Grown places store last := by
  refine ⟨first.around.trans second.around, fun location => ?_⟩
  rcases second.entries location with same | ⟨inside, none, made⟩
  · rw [same]
    exact first.entries location
  · rcases first.entries location with before | ⟨_, _, before⟩
    · exact Or.inr ⟨inside, by rw [← before, none], made⟩
    · rw [none] at before
      cases before

theorem mono (grown : Grown places store next) {others : Location → Prop}
    (inside : ∀ location, places location → others location) : Grown others store next :=
  ⟨grown.around, fun location =>
    (grown.entries location).imp id fun made => ⟨inside location made.1, made.2⟩⟩

theorem directory (grown : Grown places store next) {location : Location}
    (here : store.entry? location = some .directory) :
    next.entry? location = some .directory := by
  rcases grown.entries location with same | ⟨_, _, made⟩
  · rw [same, here]
  · exact made

/-- Files do not change. -/
theorem holds (grown : Grown places store next) {location : Location} {text : String}
    (holds : store.Holds location text) : next.Holds location text := by
  refine grown.around.holds ((grown.entries location).resolve_right fun made => ?_) holds
  rcases holds with ⟨file, special, _⟩ | ⟨_, here⟩
  · rw [entry?_of_special? special] at made
    cases made.2.1
  · rw [here] at made
    cases made.2.1

theorem leads (grown : Grown places store next) (found : Leads store path) : Leads next path :=
  grown.around.leads (fun _ => grown.directory) found

end Grown

/-! ## Reading what was written -/

theorem Grown.read {places : Location → Prop} (grown : Grown places store next) {text : String}
    (found : store.read path = .ok text) : next.read path = .ok text := by
  obtain ⟨leads, holds, file⟩ := read_eq_ok_iff.mp found
  refine read_eq_ok_iff.mpr ⟨grown.leads leads, ?_, file⟩
  rw [grown.around.working]
  exact grown.holds holds

theorem leads_of_write {text : String} (written : store.write path text = .ok next)
    {other : FilePath} (leads : Leads store other) : Leads next other := by
  refine (around_of_write written).leads (fun location here => ?_) leads
  have elsewhere : location ≠ path.place store.working := by
    intro same
    rw [same] at here
    exact (write_eq_ok_iff.mp written).2.1 here
  rw [entry?_of_write_of_ne written elsewhere, here]

theorem holds_of_write {text : String} (written : store.write path text = .ok next)
    (regular : store.Regular (path.place store.working)) :
    next.Holds (path.place store.working) text := by
  refine Or.inr ⟨(around_of_write written).regular_iff.mpr regular, ?_⟩
  rw [entry?_of_write written regular, if_pos rfl]

/-- A regular file gives back what was written to it, by every path that leads there. -/
theorem read_of_write_of_place_eq {text : String} {other : FilePath}
    (written : store.write path text = .ok next)
    (regular : store.Regular (path.place store.working)) (leads : Leads store other)
    (same : other.place store.working = path.place store.working)
    (file : other.endsInSlash = false) : next.read other = .ok text := by
  refine read_eq_ok_iff.mpr ⟨leads_of_write written leads, ?_, file⟩
  rw [(around_of_write written).working, same]
  exact holds_of_write written regular

theorem read_of_write {text : String} (written : store.write path text = .ok next)
    (regular : store.Regular (path.place store.working)) : next.read path = .ok text := by
  obtain ⟨leads, _, file, _⟩ := write_eq_ok_iff.mp written
  exact read_of_write_of_place_eq written regular leads rfl file

theorem read_of_write_of_place_ne {text current : String} {other : FilePath}
    (written : store.write path text = .ok next)
    (apart : other.place store.working ≠ path.place store.working)
    (found : store.read other = .ok current) : next.read other = .ok current := by
  obtain ⟨leads, holds, file⟩ := read_eq_ok_iff.mp found
  refine read_eq_ok_iff.mpr ⟨leads_of_write written leads, ?_, file⟩
  rw [(around_of_write written).working]
  exact (around_of_write written).holds (entry?_of_write_of_ne written apart) holds

/-! ## Making directories -/

theorem isDirectory_iff :
    store.isDirectory path = true ↔
      Leads store path ∧ store.entry? (path.place store.working) = some .directory := by
  rcases locate_cases store path with ⟨located, leads⟩ | ⟨problem, located, astray⟩
  · simp [isDirectory, located, leads]
  · simp [isDirectory, located, astray]

theorem makeDirectory_eq_ok_iff :
    store.makeDirectory path = .ok next ↔ Leads store path ∧
      store.entry? (path.place store.working) = none ∧
      next = store.set (path.place store.working) .directory := by
  rcases locate_cases store path with ⟨located, leads⟩ | ⟨problem, located, astray⟩
  · simp only [makeDirectory, located, leads, true_and]
    cases store.entry? (path.place store.working) <;> simp [eq_comm]
  · simp [makeDirectory, located, astray]

/-- Nothing special is where nothing is. -/
theorem regular_of_none {location : Location} (none : store.entry? location = none) :
    store.Regular location := by
  unfold Regular
  cases special : store.special? location with
  | none => rfl
  | some file =>
      rw [entry?_of_special? special] at none
      cases none

theorem grown_of_makeDirectory (made : store.makeDirectory path = .ok next) :
    next.entry? (path.place store.working) = some .directory ∧
      Grown (fun location => location = path.place store.working) store next := by
  obtain ⟨_, none, same⟩ := makeDirectory_eq_ok_iff.mp made
  have free : store.isGround (path.place store.working) = false :=
    isGround_eq_false (by rw [none]; simp)
  have entries : ∀ location, next.entry? location =
      if location = path.place store.working then some .directory else store.entry? location := by
    rw [same]
    exact entry?_set free (regular_of_none none) _
  have around : Around store next := by
    rw [same]
    rfl
  refine ⟨by rw [entries, if_pos rfl], around, fun location => ?_⟩
  rw [entries]
  by_cases here : location = path.place store.working
  · exact Or.inr ⟨here, by rw [here, none], if_pos here⟩
  · exact Or.inl (if_neg here)

theorem ensureDirectory_eq_ok (ensured : store.ensureDirectory path = .ok next) :
    Leads store path ∧ next.entry? (path.place store.working) = some .directory ∧
      Grown (fun location => location = path.place store.working) store next := by
  unfold ensureDirectory at ensured
  cases made : store.makeDirectory path with
  | ok other =>
      rw [made] at ensured
      rw [Except.ok.inj ensured] at made
      exact ⟨(makeDirectory_eq_ok_iff.mp made).1, grown_of_makeDirectory made⟩
  | error problem =>
      rw [made] at ensured
      simp only at ensured
      split at ensured
      · rename_i present
        obtain ⟨leads, here⟩ := isDirectory_iff.mp present
        rw [← Except.ok.inj ensured]
        exact ⟨leads, here, .refl _ _⟩
      · cases ensured

theorem ensureDirectory_of_leads (leads : Leads store path)
    (free : store.entry? (path.place store.working) = none ∨
      store.entry? (path.place store.working) = some .directory) :
    ∃ next, store.ensureDirectory path = .ok next := by
  unfold ensureDirectory
  rcases free with none | here
  · rw [makeDirectory_eq_ok_iff.mpr ⟨leads, none, rfl⟩]
    exact ⟨_, rfl⟩
  · cases store.makeDirectory path with
    | ok next => exact ⟨next, rfl⟩
    | error problem =>
        simp only [isDirectory_iff.mpr ⟨leads, here⟩, if_true]
        exact ⟨store, rfl⟩

theorem ensureDirectory_missing (missing : store.locate path = .error .missing) :
    store.ensureDirectory path = .error .missing := by
  unfold ensureDirectory makeDirectory isDirectory
  rw [missing]
  rfl

/-- Whether all of them can be made or not, nothing but directories is made, at the places of the
paths. -/
theorem createFrom_grown (paths : List FilePath) :
    Grown (fun location => ∃ path ∈ paths, location = path.place store.working) store
      (store.createFrom paths).1 := by
  induction paths generalizing store with
  | nil => exact .refl _ _
  | cons path around induction =>
      have one : ∀ {middle next : FileStore}, middle.working = store.working →
          middle.ensureDirectory path = .ok next →
          Grown (fun location => ∃ other ∈ path :: around, location = other.place store.working)
            middle next := by
        intro middle next working ensured
        refine (ensureDirectory_eq_ok ensured).2.2.mono fun _ same => ?_
        exact ⟨path, List.mem_cons_self, by rw [same, working]⟩
      have others : Grown (fun location =>
          ∃ other ∈ path :: around, location = other.place store.working) store
            (store.createFrom around).1 := by
        refine induction.mono fun location found => ?_
        obtain ⟨other, member, same⟩ := found
        exact ⟨other, List.mem_cons_of_mem _ member, same⟩
      rw [createFrom]
      split
      · exact .refl _ _
      · split
        · rename_i ensured
          exact one rfl ensured
        · split
          · rename_i outside problem failed
            rw [failed] at others
            exact others
          · rename_i outside made
            rw [made] at others
            split
            · rename_i ensured
              exact others.trans (one others.around.working ensured)
            · exact others
        · exact .refl _ _

/-- What may be in the way of making directories: nothing, or directories. -/
def Passable (store : FileStore) (location : Location) : Prop :=
  store.entry? location = none ∨ store.entry? location = some .directory

/-- All directories up to the path are there, and others were made only on the way. -/
structure Opened (working : Location) (path : FilePath) (store next : FileStore) : Prop where
  way : ∀ stop, stop ∈ path.way working ∨ stop = path.place working →
    next.entry? stop = some .directory
  grown : Grown (fun location => location ∈ path.way working ∨ location = path.place working)
    store next

/-- A path that leads out of existing directories needs no others. -/
theorem createFrom_of_leads (around : List FilePath) (leads : Leads store path)
    (free : store.Passable (path.place store.working)) :
    ∃ next, store.createFrom (path :: around) = (next, .ok ()) ∧
      Opened store.working path store next := by
  obtain ⟨next, ensured⟩ := ensureDirectory_of_leads leads free
  obtain ⟨_, made, grown⟩ := ensureDirectory_eq_ok ensured
  have more : path.text.isEmpty = false := by simpa using leads.sound.filled
  refine ⟨next, ?_, ?_, grown.mono fun _ same => Or.inr same⟩
  · rw [createFrom, more, ensured]
    rfl
  · intro stop member
    rcases member with before | last
    · exact grown.directory (leads.way stop before)
    · rw [last, made]

/-- Where nothing but empty places is in the way, all the directories can be made. -/
theorem createFrom_of_nest {around : List FilePath} (nest : FilePath.Nest (path :: around))
    (sound : path.text ≠ "" → path.Sound)
    (passable : ∀ stop, stop ∈ path.way store.working ∨ stop = path.place store.working →
      store.Passable stop) :
    ∃ next, store.createFrom (path :: around) = (next, .ok ()) ∧
      Opened store.working path store next := by
  generalize listed : path :: around = paths at nest
  induction nest generalizing path around with
  | empty rest =>
      obtain ⟨same, others⟩ := List.cons.inj listed
      subst same others
      refine ⟨store, rfl, fun stop member => ?_, .refl _ _⟩
      have here : stop = FilePath.start ⟨""⟩ store.working :=
        member.resolve_left List.not_mem_nil
      rw [here]
      exact entry?_start _
  | @ground ground rest filled dots =>
      obtain ⟨same, others⟩ := List.cons.inj listed
      subst same others
      have way : ∀ stop ∈ path.way store.working, store.entry? stop = some .directory := by
        intro stop member
        rw [mem_wayFrom_dots dots member]
        exact entry?_start path
      exact createFrom_of_leads around ⟨sound filled, way⟩ (passable _ (Or.inr rfl))
  | @inside inner outer rest inside nest induction =>
      obtain ⟨same, others⟩ := List.cons.inj listed
      subst same others
      have filled := inside.filled
      by_cases leads : Leads store path
      · exact createFrom_of_leads _ leads (passable _ (Or.inr rfl))
      · have missing := locate_missing (sound filled) (fun stop member =>
          passable stop (Or.inl member)) leads
        have more : path.text.isEmpty = false := by simpa using filled
        obtain ⟨outside, made, opened⟩ := induction ((sound filled).of_inside inside)
          (fun stop member => passable stop (Or.inl (inside.mem_way_iff.mpr member))) rfl
        have working := opened.grown.around.working
        have leads' : Leads outside path := by
          refine ⟨sound filled, fun stop member => opened.way stop ?_⟩
          rw [working] at member
          exact inside.mem_way_iff.mp member
        have free : outside.Passable (path.place outside.working) := by
          rw [working]
          rcases opened.grown.entries (path.place store.working) with same | ⟨_, _, here⟩
          · rw [Passable, same]
            exact passable _ (Or.inr rfl)
          · exact Or.inr here
        obtain ⟨next, ensured⟩ := ensureDirectory_of_leads leads' free
        obtain ⟨_, here, added⟩ := ensureDirectory_eq_ok ensured
        rw [working] at here added
        have way := leads'.way
        rw [working] at way
        refine ⟨next, ?_, ?_, ?_⟩
        · rw [createFrom, more, ensureDirectory_missing missing, made]
          simp only [Bool.false_eq_true, if_false, ensured]
        · intro stop member
          rcases member with before | last
          · exact added.directory (way stop before)
          · rw [last, here]
        · exact (opened.grown.mono fun stop member => Or.inl (inside.mem_way_iff.mpr member)).trans
            (added.mono fun _ same => Or.inr same)

/-! ## Places to write to -/

/-- Nothing but empty places is in the way of a file, and its own place is neither a directory nor
special nor on the way. -/
structure Writable (store : FileStore) (path : FilePath) : Prop where
  sound : path.Sound
  passable : ∀ stop ∈ path.way store.working, store.Passable stop
  vacant : store.entry? (path.place store.working) ≠ some .directory
  regular : store.Regular (path.place store.working)
  apart : path.place store.working ∉ path.way store.working
  file : path.endsInSlash = false

theorem Writable.nest (writable : Writable store path) : FilePath.Nest (path :: path.parents) := by
  refine FilePath.nest_parents writable.sound.filled fun dotted => writable.apart ?_
  obtain ⟨front, names⟩ := List.getLast?_eq_some_iff.mp dotted
  rw [FilePath.place, FilePath.way, names, List.foldl_append, wayFrom_append]
  exact List.mem_append_right _ List.mem_cons_self

/-- Other directories on the way do no harm, nor does anything elsewhere. -/
theorem Writable.of_entries (writable : Writable store path) (around : Around store next)
    (passable : ∀ stop ∈ path.way store.working,
      next.entry? stop = store.entry? stop ∨ next.entry? stop = some .directory)
    (same : next.entry? (path.place store.working) = store.entry? (path.place store.working)) :
    Writable next path where
  sound := writable.sound
  passable := by
    rw [around.working]
    intro stop member
    rcases passable stop member with same | made
    · rw [Passable, same]
      exact writable.passable stop member
    · exact Or.inr made
  vacant := by
    rw [around.working, same]
    exact writable.vacant
  regular := by
    rw [around.working, around.regular_iff]
    exact writable.regular
  apart := by
    rw [around.working]
    exact writable.apart
  file := writable.file

theorem Writable.of_grown {places : Location → Prop} (writable : Writable store path)
    (grown : Grown places store next) (outside : ¬ places (path.place store.working)) :
    Writable next path :=
  writable.of_entries grown.around
    (fun stop _ => (grown.entries stop).imp id fun made => made.2.2)
    ((grown.entries _).resolve_right fun made => outside made.1)

end FileStore

end ScopedSchema
