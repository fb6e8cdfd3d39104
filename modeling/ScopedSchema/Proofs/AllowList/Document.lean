import ScopedSchema.AllowList.Document
import ScopedSchema.Proofs.Document.Grammar

/-!
# Malformed entries are dropped alone

What an item of an allow list document gives depends on that item only: a path gives a bare entry,
a table gives an entry if it names one path and at most one type and one message, and nothing else
gives an entry. So a document gives the entries of its items, one after another. It is refused as a
whole only for what has no value at all, which in JSON within the limits is a string with half of a
surrogate pair.
-/

namespace ScopedSchema

open Value

/-! ## Types -/

/-- How a type is written in a document. Of a repeated name in an object the place is the first one
and the type is the last one. -/
inductive TypeOverride.Represents : Value → TypeOverride → Prop
  | named (name : String) : Represents (.string name) (.named name)
  | list {items : List Value} {types : List TypeOverride} : List.Forall₂ Represents items types →
      Represents (.list items) (.list types)
  | object {entries : List (Value × Value)} {names : List String} {types : List TypeOverride} :
      entries.map Prod.fst = names.map Value.string →
      List.Forall₂ Represents (entries.map Prod.snd) types →
      Represents (.table entries) (.object (Table.firstPlaces (names.zip types)))
  | null : Represents .null (.other .null)
  | bool (flag : Bool) : Represents (.bool flag) (.other (@PlainValue.bool flag))
  | natural (number : Nat) :
      Represents (.natural number) (.other (@PlainValue.number (some number)))
  | number (isFinite : Bool) :
      Represents (.number isFinite)
        (.other (if isFinite then @PlainValue.number none else .null))

namespace TypeOverride

mutual

theorem ofValue?_eq_some_iff : ∀ {value : Value} {type : TypeOverride},
    ofValue? value = some type ↔ Represents value type
  | .null, _ | .bool _, _ | .natural _, _ | .number _, _ | .string _, _ => by
      constructor
      · rintro ⟨⟩
        constructor
      · rintro ⟨⟩
        rfl
  | .list items, type => by
      constructor
      · intro read
        obtain ⟨types, all, rfl⟩ := Option.map_eq_some_iff.mp read
        exact .list (ofItems?_eq_some_iff.mp all)
      · rintro ⟨⟩
        rename_i types all
        rw [ofValue?, ofItems?_eq_some_iff.mpr all, Option.map_some]
  | .table entries, type => by
      constructor
      · intro read
        obtain ⟨members, all, rfl⟩ := Option.map_eq_some_iff.mp read
        obtain ⟨names, types, keys, values, rfl⟩ := ofEntries?_eq_some_iff.mp all
        rw [Table.entries_ofList]
        exact .object keys values
      · rintro ⟨⟩
        rename_i names types keys values
        rw [ofValue?, ofEntries?_eq_some_iff.mpr ⟨names, types, keys, values, rfl⟩,
          Option.map_some, Table.entries_ofList]
  | .unreadable, type => by
      constructor
      · intro read
        cases read
      · rintro ⟨⟩

theorem ofItems?_eq_some_iff : ∀ {items : List Value} {types : List TypeOverride},
    ofItems? items = some types ↔ List.Forall₂ Represents items types
  | [], types => by simp [ofItems?, eq_comm]
  | item :: items, types => by
      have first : ∀ {type}, ofValue? item = some type ↔ Represents item type :=
        ofValue?_eq_some_iff
      have others : ∀ {types}, ofItems? items = some types ↔ List.Forall₂ Represents items types :=
        ofItems?_eq_some_iff
      simp [ofItems?, Option.bind_eq_some_iff, List.forall₂_cons_left_iff, first, others,
        eq_comm (b := types)]

theorem ofEntries?_eq_some_iff : ∀ {entries : List (Value × Value)}
    {members : List (String × TypeOverride)}, ofEntries? entries = some members ↔
      ∃ (names : List String) (types : List TypeOverride),
        entries.map Prod.fst = names.map Value.string ∧
          List.Forall₂ Represents (entries.map Prod.snd) types ∧ members = names.zip types
  | [], members => by simp [ofEntries?, eq_comm]
  | (key, value) :: entries, members => by
      have first : ∀ {type}, ofValue? value = some type ↔ Represents value type :=
        ofValue?_eq_some_iff
      simp only [ofEntries?, Option.bind_eq_bind, Option.bind_eq_some_iff, Option.pure_def,
        Option.some.injEq, text?_eq_some_iff, first, ofEntries?_eq_some_iff]
      constructor
      · rintro ⟨name, rfl, type, represents, _, ⟨names, types, keys, values, rfl⟩, rfl⟩
        exact ⟨name :: names, type :: types, by simp [keys], .cons represents values, rfl⟩
      · rintro ⟨names, types, keys, values, rfl⟩
        obtain ⟨type, types, represents, later, rfl⟩ := List.forall₂_cons_left_iff.mp values
        obtain ⟨name, names, rfl, key, keys⟩ := List.map_eq_cons_iff.mp keys.symm
        exact ⟨name, key.symm, type, represents, names.zip types,
          ⟨names, types, keys.symm, later, rfl⟩, rfl⟩

end

mutual

/-- Every readable value is a type, if its tables have no other keys than text. -/
theorem exists_ofValue? : ∀ {value : Value}, value.isReadable = true → value.hasTextKeys = true →
    ∃ type, ofValue? value = some type
  | .null, _, _ | .bool _, _, _ | .natural _, _, _ | .number _, _, _ | .string _, _, _ => ⟨_, rfl⟩
  | .list items, readable, textKeys => by
      obtain ⟨types, all⟩ := exists_ofItems? readable textKeys
      exact ⟨.list types, by rw [ofValue?, all, Option.map_some]⟩
  | .table entries, readable, textKeys => by
      obtain ⟨members, all⟩ := exists_ofEntries? readable textKeys
      exact ⟨.object (Table.ofList members).entries, by rw [ofValue?, all, Option.map_some]⟩
  | .unreadable, readable, _ => by cases readable

theorem exists_ofItems? : ∀ {items : List Value}, itemsReadable items = true →
    itemsHaveTextKeys items = true → ∃ types, ofItems? items = some types
  | [], _, _ => ⟨[], rfl⟩
  | item :: items, readable, textKeys => by
      rw [itemsReadable, Bool.and_eq_true] at readable
      rw [itemsHaveTextKeys, Bool.and_eq_true] at textKeys
      obtain ⟨type, first⟩ := exists_ofValue? readable.1 textKeys.1
      obtain ⟨types, others⟩ := exists_ofItems? readable.2 textKeys.2
      exact ⟨type :: types, by simp [ofItems?, first, others]⟩

theorem exists_ofEntries? : ∀ {entries : List (Value × Value)}, entriesReadable entries = true →
    entriesHaveTextKeys entries = true → ∃ members, ofEntries? entries = some members
  | [], _, _ => ⟨[], rfl⟩
  | (key, value) :: entries, readable, textKeys => by
      rw [entriesReadable, Bool.and_eq_true, Bool.and_eq_true] at readable
      rw [entriesHaveTextKeys, Bool.and_eq_true, Bool.and_eq_true] at textKeys
      obtain ⟨name, named⟩ := Option.isSome_iff_exists.mp textKeys.1.1
      obtain ⟨type, first⟩ := exists_ofValue? readable.1.2 textKeys.1.2
      obtain ⟨members, others⟩ := exists_ofEntries? readable.2 textKeys.2
      exact ⟨(name, type) :: members, by simp [ofEntries?, named, first, others]⟩

end

end TypeOverride

/-! ## Entries -/

/-- A part that may be left out, or for which null may stand; it stands at most once. -/
inductive Optionally {Part : Type} (Represents : Value → Part → Prop) :
    List Value → Option Part → Prop
  | absent : Optionally Represents [] none
  | null : Optionally Represents [.null] none
  | given {value : Value} {part : Part} : value ≠ .null → Represents value part →
      Optionally Represents [value] (some part)

def IsText (value : Value) (text : String) : Prop := value = .string text

/-- The items that give an entry, and the entry that they give. -/
inductive AllowEntry.Gives : Value → AllowEntry → Prop
  | path (path : String) : Gives (.string path) (.bare path)
  | bare {entries : List (Value × Value)} {path : String} :
      under entries "name" = [.string path] →
      Optionally TypeOverride.Represents (under entries "type") none →
      Optionally IsText (under entries "message") none →
      Gives (.table entries) (.bare path)
  | override {entries : List (Value × Value)} {path : String} {type : Option TypeOverride}
      {message : Option String} :
      under entries "name" = [.string path] →
      Optionally TypeOverride.Represents (under entries "type") type →
      Optionally IsText (under entries "message") message →
      type ≠ none ∨ message ≠ none →
      Gives (.table entries) (.override path ⟨type, message⟩)

/-- The members of a table that gives an entry: one name, which is text; at most one type, whatever
it is; and at most one message, which is text or null. -/
structure AllowEntry.Describes (entries : List (Value × Value)) : Prop where
  name : ∃ path, under entries "name" = [.string path]
  type : (under entries "type").length ≤ 1
  message : ∃ message, Optionally IsText (under entries "message") message

/-- The entries that the items give, in order. Items that give none are left out. -/
inductive AllowList.Kept : List Value → List AllowEntry → Prop
  | nil : Kept [] []
  | kept {item : Value} {items : List Value} {entry : AllowEntry} {entries : List AllowEntry} :
      AllowEntry.Gives item entry → Kept items entries → Kept (item :: items) (entry :: entries)
  | dropped {item : Value} {items : List Value} {entries : List AllowEntry} :
      (∀ entry, ¬ AllowEntry.Gives item entry) → Kept items entries → Kept (item :: items) entries

section Members

variable {Part : Type} {Represents : Value → Part → Prop}
  {decode : Value → Option (Option Part)}

/-- Null decodes as no part, and anything else as what it represents. -/
def DecodesOptional (Represents : Value → Part → Prop) (decode : Value → Option (Option Part)) :
    Prop :=
  decode .null = some none ∧ ∀ value, value ≠ .null → ∀ part,
    decode value = some part ↔ ∃ given, part = some given ∧ Represents value given

theorem decodesOptional_text : DecodesOptional IsText optionalText? := by
  refine ⟨rfl, ?_⟩
  intro value nonNull part
  cases value with
  | null => exact absurd rfl nonNull
  | string text => simp [optionalText?, IsText, eq_comm]
  | _ => simp [optionalText?, IsText]

theorem decodesOptional_type :
    DecodesOptional TypeOverride.Represents AllowEntry.optionalType? := by
  refine ⟨rfl, ?_⟩
  intro value nonNull part
  have typed : AllowEntry.optionalType? value = (TypeOverride.ofValue? value).map some := by
    cases value with
    | null => exact absurd rfl nonNull
    | _ => rfl
  rw [typed, Option.map_eq_some_iff]
  simp only [TypeOverride.ofValue?_eq_some_iff]
  constructor
  · rintro ⟨type, represents, rfl⟩
    exact ⟨type, rfl, represents⟩
  · rintro ⟨type, rfl, represents⟩
    exact ⟨type, represents, rfl⟩

theorem optionally_nil_iff {part : Option Part} :
    Optionally Represents [] part ↔ part = none := by
  constructor
  · rintro ⟨⟩
    rfl
  · rintro rfl
    exact .absent

theorem optionally_null_iff {part : Option Part} :
    Optionally Represents [.null] part ↔ part = none := by
  constructor
  · rintro (_ | _ | ⟨nonNull, _⟩)
    · rfl
    · exact absurd rfl nonNull
  · rintro rfl
    exact .null

theorem optionally_singleton_iff {value : Value} (nonNull : value ≠ .null) {part : Option Part} :
    Optionally Represents [value] part ↔ ∃ given, part = some given ∧ Represents value given := by
  constructor
  · rintro (_ | _ | ⟨_, represents⟩)
    · exact absurd rfl nonNull
    · exact ⟨_, rfl, represents⟩
  · rintro ⟨given, rfl, represents⟩
    exact .given nonNull represents

theorem memberOr?_knownMembers (decodes : DecodesOptional Represents decode)
    {names : List String} {entries : List (Value × Value)} (textKeys : TextKeys entries)
    {name : String} (known : name ∈ names) (once : (under entries name).length ≤ 1)
    {part : Option Part} :
    memberOr? (knownMembers names entries) name none decode = some part ↔
      Optionally Represents (under entries name) part := by
  obtain ⟨null, given⟩ := decodes
  rw [memberOr?, lookup_knownMembers textKeys known]
  generalize under entries name = values at once
  cases values with
  | nil => simp [optionally_nil_iff, eq_comm]
  | cons value rest =>
      obtain rfl : rest = [] := by simpa using once
      by_cases isNull : value = .null
      · subst isNull
        simp [null, optionally_null_iff, eq_comm]
      · rw [optionally_singleton_iff isNull]
        exact given value isNull part

theorem Optionally.length_le_one {values : List Value} {part : Option Part}
    (optionally : Optionally Represents values part) : values.length ≤ 1 := by
  cases optionally <;> simp

theorem optionally_text_iff {values : List Value} {text : String} :
    Optionally IsText values (some text) ↔ values = [.string text] := by
  constructor
  · rintro (_ | _ | ⟨_, rfl⟩)
    rfl
  · rintro rfl
    exact .given (by simp) rfl

end Members

namespace AllowEntry

theorem isEmpty_eq_false_iff {type : Option TypeOverride} {message : Option String} :
    (FieldOverride.mk type message).isEmpty = false ↔ type ≠ none ∨ message ≠ none := by
  cases type <;> cases message <;> simp [FieldOverride.isEmpty]

theorem gives_table_iff {entries : List (Value × Value)} {entry : AllowEntry} :
    Gives (.table entries) entry ↔
      ∃ path type message, under entries "name" = [.string path] ∧
        Optionally TypeOverride.Represents (under entries "type") type ∧
        Optionally IsText (under entries "message") message ∧
        ofOverride path ⟨type, message⟩ = entry := by
  constructor
  · rintro (_ | ⟨name, typed, described⟩ | ⟨name, typed, described, filled⟩)
    · exact ⟨_, _, _, name, typed, described, rfl⟩
    · refine ⟨_, _, _, name, typed, described, ?_⟩
      rw [ofOverride, isEmpty_eq_false_iff.mpr filled]
      rfl
  · rintro ⟨path, type, message, name, typed, described, rfl⟩
    cases empty : (FieldOverride.mk type message).isEmpty with
    | true =>
        obtain ⟨rfl, rfl⟩ : type = none ∧ message = none := by
          simpa [FieldOverride.isEmpty] using empty
        exact .bare name typed described
    | false =>
        rw [ofOverride, empty]
        exact .override name typed described (isEmpty_eq_false_iff.mp empty)

theorem ofTable?_eq_some_iff {entries : List (Value × Value)} (textKeys : TextKeys entries)
    {entry : AllowEntry} :
    ofTable? (.table entries) = some (some entry) ↔ Gives (.table entries) entry := by
  rw [gives_table_iff, ofTable?, tableMembers?_eq textKeys]
  split
  · rename_i once
    have named : ∀ {part}, memberOr? (knownMembers ["name", "type", "message"] entries) "name" none
        optionalText? = some part ↔ Optionally IsText (under entries "name") part :=
      memberOr?_knownMembers decodesOptional_text textKeys (by decide) (once _ (by decide))
    have typed : ∀ {part}, memberOr? (knownMembers ["name", "type", "message"] entries) "type" none
        optionalType? = some part ↔
          Optionally TypeOverride.Represents (under entries "type") part :=
      memberOr?_knownMembers decodesOptional_type textKeys (by decide) (once _ (by decide))
    have described : ∀ {part}, memberOr? (knownMembers ["name", "type", "message"] entries)
        "message" none optionalText? = some part ↔
          Optionally IsText (under entries "message") part :=
      memberOr?_knownMembers decodesOptional_text textKeys (by decide) (once _ (by decide))
    simp only [Option.bind_some, ofMembers?, Option.bind_eq_bind, Option.bind_eq_some_iff,
      Option.pure_def, Option.some.injEq, Option.map_eq_some_iff, named, typed, described]
    constructor
    · rintro ⟨_, name, type, represents, message, describes, path, rfl, same⟩
      exact ⟨path, type, message, optionally_text_iff.mp name, represents, describes, same⟩
    · rintro ⟨path, type, message, name, represents, describes, same⟩
      exact ⟨some path, optionally_text_iff.mpr name, type, represents, message, describes, path,
        rfl, same⟩
  · rename_i repeated
    constructor
    · rintro ⟨⟩
    · rintro ⟨path, type, message, name, represents, describes, _⟩
      refine absurd ?_ repeated
      simp only [List.forall_mem_cons]
      exact ⟨by rw [name]; rfl, represents.length_le_one, describes.length_le_one, by simp⟩

/-- Whatever stands for the type, it is one. -/
theorem exists_gives_iff {entries : List (Value × Value)}
    (readable : entriesReadable entries = true) (textKeys : entriesHaveTextKeys entries = true) :
    (∃ entry, Gives (.table entries) entry) ↔ Describes entries := by
  constructor
  · rintro ⟨entry, gives⟩
    obtain ⟨path, type, message, name, typed, described, _⟩ := gives_table_iff.mp gives
    exact ⟨⟨path, name⟩, typed.length_le_one, message, described⟩
  · rintro ⟨⟨path, name⟩, once, message, described⟩
    have typed : ∃ type, Optionally TypeOverride.Represents (under entries "type") type := by
      cases found : under entries "type" with
      | nil => exact ⟨none, .absent⟩
      | cons value rest =>
          obtain rfl : rest = [] := by simpa [found] using once
          by_cases isNull : value = .null
          · rw [isNull]
            exact ⟨none, .null⟩
          · obtain ⟨key, inside⟩ := mem_of_mem_under (found ▸ List.mem_cons_self)
            obtain ⟨type, read⟩ := TypeOverride.exists_ofValue?
              (entriesReadable_iff.mp readable _ inside).2
              ((entriesHaveTextKeys_iff.mp textKeys).2 _ inside)
            exact ⟨some type, .given isNull (TypeOverride.ofValue?_eq_some_iff.mp read)⟩
    obtain ⟨type, typed⟩ := typed
    exact ⟨_, gives_table_iff.mpr ⟨path, type, message, name, typed, described, rfl⟩⟩

theorem ofTable?_gives {value : Value} (noPath : value.text? = none)
    (textKeys : value.hasTextKeys = true) (entry : AllowEntry) :
    ofTable? value = some (some entry) ↔ Gives value entry := by
  cases value with
  | table entries => exact ofTable?_eq_some_iff (entriesHaveTextKeys_iff.mp textKeys).1
  | string path => cases noPath
  | _ =>
      constructor
      · rintro ⟨⟩
      · rintro ⟨⟩

/-- A readable item is never a reason to refuse the document. -/
theorem ofValue?_of_readable {value : Value} (readable : value.isReadable = true)
    (textKeys : value.hasTextKeys = true) :
    ∃ given, ofValue? value = some given ∧ ∀ entry, given = some entry ↔ Gives value entry := by
  cases path : value.text? with
  | some text =>
      obtain rfl := text?_eq_some_iff.mp path
      refine ⟨some (.bare text), rfl, ?_⟩
      intro entry
      constructor
      · rintro ⟨⟩
        exact .path text
      · rintro ⟨⟩
        rfl
  | none =>
      have tabled := ofTable?_gives path textKeys
      refine ⟨(ofTable? value).getD none, ?_, ?_⟩
      · simp only [ofValue?, path, readable, textKeys, if_true]
        cases ofTable? value <;> rfl
      · intro entry
        rw [← tabled entry]
        cases ofTable? value <;> simp

theorem ofValue?_of_unreadable {value : Value} (unreadable : value.isReadable = false) :
    ofValue? value = none := by
  have noPath : value.text? = none := by
    cases value with
    | string path => cases unreadable
    | _ => rfl
  simp [ofValue?, noPath, unreadable]

end AllowEntry

namespace AllowList

theorem mapM_of_readable {items : List Value} (readable : ∀ item ∈ items, item.isReadable = true)
    (textKeys : ∀ item ∈ items, item.hasTextKeys = true) :
    ∃ given, items.mapM AllowEntry.ofValue? = some given ∧
      ∀ entries, Kept items entries ↔ entries = given.filterMap id := by
  induction items with
  | nil =>
      refine ⟨[], rfl, ?_⟩
      intro entries
      constructor
      · rintro ⟨⟩
        rfl
      · rintro rfl
        exact .nil
  | cons item items induction =>
      rw [List.forall_mem_cons] at readable textKeys
      obtain ⟨first, read, gives⟩ := AllowEntry.ofValue?_of_readable readable.1 textKeys.1
      obtain ⟨others, all, kept⟩ := induction readable.2 textKeys.2
      refine ⟨first :: others, by simp [List.mapM_cons, read, all], ?_⟩
      intro entries
      cases first with
      | some entry =>
          constructor
          · rintro (_ | ⟨given, rest⟩ | ⟨dropped, _⟩)
            · obtain rfl := Option.some.inj ((gives _).mpr given)
              rw [(kept _).mp rest]
              rfl
            · exact absurd ((gives entry).mp rfl) (dropped entry)
          · rintro rfl
            exact .kept ((gives entry).mp rfl) ((kept _).mpr rfl)
      | none =>
          constructor
          · rintro (_ | ⟨given, _⟩ | ⟨_, rest⟩)
            · cases (gives _).mpr given
            · exact (kept _).mp rest
          · rintro rfl
            refine .dropped ?_ ((kept _).mpr rfl)
            intro entry given
            cases (gives entry).mpr given

theorem mapM_of_unreadable {items : List Value} (unreadable : itemsReadable items = false) :
    items.mapM AllowEntry.ofValue? = none := by
  induction items with
  | nil => cases unreadable
  | cons item items induction =>
      rw [itemsReadable, Bool.and_eq_false_iff] at unreadable
      rcases unreadable with first | others
      · simp [List.mapM_cons, AllowEntry.ofValue?_of_unreadable first]
      · simp [List.mapM_cons, induction others]

end AllowList

/-! ## Documents -/

namespace AllowList

/-- A list in JSON gives the entries of its items, a path or a table that describes one, unless a
string in it has half of a surrogate pair: then the document is refused. -/
theorem parse_json_kept {depth : Nat} {label text : String} {items : List Value}
    (written : Json.Padded (Json.Denotes depth) text (.list items))
    (shallow : depth ≤ Json.State.depthLimit) :
    (itemsReadable items = true → ∃ list, layout.parse .json label text = .ok list ∧
      (∀ entries, Kept items entries ↔ entries = list.entries) ∧
      ∀ members, .table members ∈ items →
        ((∃ entry, AllowEntry.Gives (.table members) entry) ↔ AllowEntry.Describes members)) ∧
    (itemsReadable items = false → layout.parse .json label text = .error ⟨label, .json⟩) := by
  have read := Json.read?_of_denotes written shallow
  have decoded : layout.read? .json text =
      (items.mapM AllowEntry.ofValue?).map fun entries => ⟨entries.filterMap id⟩ := by
    simp [Layout.read?, read, layout, ofValue?, listOf?, items?]
  constructor
  · intro readable
    obtain ⟨_, denotes, _⟩ := written
    have textKeys := Json.hasTextKeys_of_denotes denotes readable
    obtain ⟨given, all, kept⟩ := mapM_of_readable (itemsReadable_iff.mp readable)
      (itemsHaveTextKeys_iff.mp textKeys)
    refine ⟨⟨given.filterMap id⟩, ?_, kept, ?_⟩
    · rw [Layout.parse, decoded, all, Option.map_some]
    · intro members inside
      exact AllowEntry.exists_gives_iff (itemsReadable_iff.mp readable _ inside)
        (itemsHaveTextKeys_iff.mp textKeys _ inside)
  · intro unreadable
    rw [Layout.parse, decoded, mapM_of_unreadable unreadable, Option.map_none]

/-- A path, a table with a message, and a table whose name is a number. -/
def mixedText : String :=
  "[\"id\",\x7b\"name\":\"title\",\"message\":\"short\"\x7d,\x7b\"name\":7\x7d]"

def mixedItems : List Value :=
  [.string "id", .table [(.string "name", .string "title"), (.string "message", .string "short")],
    .table [(.string "name", .natural 7)]]

theorem denotes_mixedText : Json.Padded (Json.Denotes 2) mixedText (.list mixedItems) := by
  have id : Json.Denotes 1 "\"id\"" (.string "id") :=
    .inl (.string (Json.literal_plain "id" (by decide)))
  have name : Json.Literal "\"name\"" (.string "name") := Json.literal_plain "name" (by decide)
  have strict : Numeral.Strict ⟨none, ['7'], none, none⟩ :=
    ⟨by simp, ⟨by simp, by simp⟩, by simp, by simp, by simp, by simp⟩
  have seven : Json.Denotes 0 "7" (.natural 7) :=
    Json.Scalar.numeral strict (Or.inl rfl) (by decide +kernel)
  have titled : Json.Member (Json.Denotes 0) "\"name\":\"title\""
      (.string "name", .string "title") :=
    .mk (.tight name) (.tight (Json.Scalar.string (Json.literal_plain "title" (by decide))))
  have described : Json.Member (Json.Denotes 0) "\"message\":\"short\""
      (.string "message", .string "short") :=
    .mk (.tight (Json.literal_plain "message" (by decide)))
      (.tight (Json.Scalar.string (Json.literal_plain "short" (by decide))))
  have numbered : Json.Member (Json.Denotes 0) "\"name\":7" (.string "name", .natural 7) :=
    .mk (.tight name) (.tight seven)
  have kept : Json.Denotes 1 "\x7b\"name\":\"title\",\"message\":\"short\"\x7d"
      (.table [(.string "name", .string "title"), (.string "message", .string "short")]) :=
    .inr (.table (.some (List.cons_ne_nil _ _) (.cons titled (.cons described .nil))))
  have dropped : Json.Denotes 1 "\x7b\"name\":7\x7d" (.table [(.string "name", .natural 7)]) :=
    .inr (.table (.some (List.cons_ne_nil _ _) (.cons numbered .nil)))
  have items : List.Forall₂ (Json.Padded (Json.Denotes 1))
      ["\"id\"", "\x7b\"name\":\"title\",\"message\":\"short\"\x7d", "\x7b\"name\":7\x7d"]
      mixedItems :=
    .cons (.tight id) (.cons (.tight kept) (.cons (.tight dropped) .nil))
  exact .tight (.inr (.list (.some (List.cons_ne_nil _ _) items)))

theorem parse_json_kept_mixed :
    Json.Padded (Json.Denotes 2) mixedText (.list mixedItems) ∧ 2 ≤ Json.State.depthLimit ∧
      itemsReadable mixedItems = true ∧
      layout.parse .json "list" mixedText =
        .ok ⟨[.bare "id", .override "title" ⟨none, some "short"⟩]⟩ := by
  have readable : itemsReadable mixedItems = true := by decide
  have kept : Kept mixedItems [.bare "id", .override "title" ⟨none, some "short"⟩] := by
    refine .kept (.path "id") (.kept (.override rfl .absent ?_ (by simp)) (.dropped ?_ .nil))
    · exact optionally_text_iff.mpr rfl
    · rintro entry (_ | ⟨name, _, _⟩ | ⟨name, _, _, _⟩)
      · cases name
      · cases name
  obtain ⟨list, parsed, entries, _⟩ :=
    (parse_json_kept denotes_mixedText (by decide)).1 readable
  refine ⟨denotes_mixedText, by decide, readable, ?_⟩
  rw [parsed, (entries _).mp kept]

/-- A table without a name that holds half of a surrogate pair, and a path. -/
def unpairedText : String := "[\x7b\"x\":\"\\ud800\"\x7d,\"a\"]"

def unpairedItems : List Value := [.table [(.string "x", .unreadable)], .string "a"]

theorem denotes_unpairedText :
    Json.Padded (Json.Denotes 2) unpairedText (.list unpairedItems) := by
  have hex : ∀ digit ∈ ['d', '8', '0', '0'], Json.IsHexDigit digit := by
    simp [Json.IsHexDigit]
  have code : Json.Spells ['\\', 'u', 'd', '8', '0', '0'] (.code 0xD800) := .code rfl hex
  have unpaired : Json.Literal "\"\\ud800\"" .unreadable := by
    apply Json.Literal.unpaired (.cons code .nil)
    intro characters means
    cases means with
    | code alone _ => exact alone (by unfold Json.IsSurrogate; decide)
  have member : Json.Member (Json.Denotes 0) "\"x\":\"\\ud800\"" (.string "x", .unreadable) :=
    .mk (.tight (Json.literal_plain "x" (by decide))) (.tight (Json.Scalar.string unpaired))
  have table : Json.Denotes 1 "\x7b\"x\":\"\\ud800\"\x7d" (.table [(.string "x", .unreadable)]) :=
    .inr (.table (.some (List.cons_ne_nil _ _) (.cons member .nil)))
  have path : Json.Denotes 1 "\"a\"" (.string "a") :=
    .inl (.string (Json.literal_plain "a" (by decide)))
  have items : List.Forall₂ (Json.Padded (Json.Denotes 1))
      ["\x7b\"x\":\"\\ud800\"\x7d", "\"a\""] unpairedItems :=
    .cons (.tight table) (.cons (.tight path) .nil)
  exact .tight (.inr (.list (.some (List.cons_ne_nil _ _) items)))

/-- The path is not kept, though the text is JSON within the limits. -/
theorem parse_json_unpaired :
    Json.Padded (Json.Denotes 2) unpairedText (.list unpairedItems) ∧ 2 ≤ Json.State.depthLimit ∧
      Kept unpairedItems [.bare "a"] ∧
      layout.parse .json "list" unpairedText = .error ⟨"list", .json⟩ := by
  have kept : Kept unpairedItems [.bare "a"] := by
    refine .dropped ?_ (.kept (.path "a") .nil)
    rintro entry (_ | ⟨name, _, _⟩ | ⟨name, _, _, _⟩)
    · cases name
    · cases name
  exact ⟨denotes_unpairedText, by decide, kept, by rfl⟩

end AllowList

end ScopedSchema
