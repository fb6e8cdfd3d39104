import ScopedSchema.Document.Format
import ScopedSchema.Document.Record
import ScopedSchema.Proofs.Document.Json
import ScopedSchema.Proofs.Table

/-!
# Documents that decode as what they were written from

A text decodes as a thing if it reads as a value that is decoded as that thing. The texts of lists
and of tables by name do so as soon as the texts of their parts do. A record is decoded from its
known members, in whatever order they stand.
-/

namespace ScopedSchema

variable {α : Type}

/-! ## Parts of values -/

namespace Value

theorem itemsReadable_iff {items : List Value} :
    itemsReadable items = true ↔ ∀ item ∈ items, item.isReadable = true := by
  induction items with
  | nil => simp [itemsReadable]
  | cons item items induction => simp [itemsReadable, induction]

theorem entriesReadable_iff {entries : List (Value × Value)} :
    entriesReadable entries = true ↔
      ∀ entry ∈ entries, entry.1.isReadable = true ∧ entry.2.isReadable = true := by
  induction entries with
  | nil => simp [entriesReadable]
  | cons entry entries induction => simp [entriesReadable, induction, and_assoc]

theorem itemsHaveTextKeys_iff {items : List Value} :
    itemsHaveTextKeys items = true ↔ ∀ item ∈ items, item.hasTextKeys = true := by
  induction items with
  | nil => simp [itemsHaveTextKeys]
  | cons item items induction => simp [itemsHaveTextKeys, induction]

theorem text?_eq_some_iff {value : Value} {text : String} :
    value.text? = some text ↔ value = .string text := by
  cases value <;> simp [text?]

/-- Every key of the table is text. -/
def TextKeys (entries : List (Value × Value)) : Prop :=
  ∀ entry ∈ entries, ∃ name, entry.1 = .string name

theorem entriesHaveTextKeys_iff {entries : List (Value × Value)} :
    entriesHaveTextKeys entries = true ↔
      TextKeys entries ∧ ∀ entry ∈ entries, entry.2.hasTextKeys = true := by
  induction entries with
  | nil => simp [entriesHaveTextKeys, TextKeys]
  | cons entry entries induction =>
    obtain ⟨key, value⟩ := entry
    simp only [entriesHaveTextKeys, Bool.and_eq_true, Option.isSome_iff_exists, text?_eq_some_iff,
      induction, TextKeys, List.forall_mem_cons]
    constructor
    · rintro ⟨⟨key, value⟩, keys, values⟩
      exact ⟨⟨key, keys⟩, value, values⟩
    · rintro ⟨⟨key, keys⟩, value, values⟩
      exact ⟨⟨key, value⟩, keys, values⟩

/-! ## Members of records -/

theorem memberName?_of_mem {names : List String} {name : String} (known : name ∈ names) :
    memberName? names (.string name) = some (some name) := by
  have found : (names.find? fun other => other = name).isSome = true :=
    List.find?_isSome.mpr ⟨name, known, by simp⟩
  obtain ⟨other, same⟩ := Option.isSome_iff_exists.mp found
  have equal : other = name := by simpa using List.find?_some same
  rw [memberName?, same, equal]

/-- What stands under a name in a table, in the order of the document. -/
def under (entries : List (Value × Value)) (name : String) : List Value :=
  (entries.filter fun entry => entry.1.text? = some name).map Prod.snd

theorem mem_of_mem_under {entries : List (Value × Value)} {name : String} {value : Value}
    (inside : value ∈ under entries name) : ∃ key, (key, value) ∈ entries := by
  obtain ⟨⟨key, _⟩, member, rfl⟩ := List.mem_map.mp inside
  exact ⟨key, List.mem_of_mem_filter member⟩

/-- The members of a table that are known, repeated ones too. -/
def knownMembers (names : List String) (entries : List (Value × Value)) : List (String × Value) :=
  entries.filterMap fun entry =>
    (entry.1.text?.filter fun name => name ∈ names).map fun name => (name, entry.2)

theorem under_cons_string (name : String) (value : Value) (entries : List (Value × Value))
    (other : String) :
    under ((.string name, value) :: entries) other =
      if name = other then value :: under entries other else under entries other := by
  by_cases same : name = other <;> simp [under, text?, same]

theorem knownMembers_cons_string (names : List String) (name : String) (value : Value)
    (entries : List (Value × Value)) :
    knownMembers names ((.string name, value) :: entries) =
      if name ∈ names then (name, value) :: knownMembers names entries
      else knownMembers names entries := by
  by_cases known : name ∈ names <;> simp [knownMembers, text?, known]

theorem addMember?_string (names : List String) (members : List (String × Value)) (name : String)
    (value : Value) :
    addMember? names members (.string name, value) =
      if name ∈ names then
        if name ∈ members.map Prod.fst then none else some (members ++ [(name, value)])
      else some members := by
  by_cases known : name ∈ names
  · rw [if_pos known, addMember?, memberName?_of_mem known]
    simp only [lookup_isSome_iff]
  · have absent : names.find? (fun other => other = name) = none := by
      rw [List.find?_eq_none]
      intro other inside same
      exact known (by rwa [← of_decide_eq_true same])
    rw [if_neg known, addMember?, memberName?, absent]

theorem foldlM_addMember?_eq (names : List String) {entries : List (Value × Value)}
    (textKeys : TextKeys entries) (taken : List (String × Value))
    (nodup : (taken.map Prod.fst).Nodup) :
    entries.foldlM (addMember? names) taken =
      if ((taken ++ knownMembers names entries).map Prod.fst).Nodup then
        some (taken ++ knownMembers names entries)
      else none := by
  induction entries generalizing taken with
  | nil => simp [knownMembers, nodup]
  | cons entry entries induction =>
    obtain ⟨key, value⟩ := entry
    obtain ⟨name, rfl⟩ := textKeys _ List.mem_cons_self
    have later : TextKeys entries := fun other inside =>
      textKeys other (List.mem_cons_of_mem _ inside)
    rw [List.foldlM_cons, addMember?_string, knownMembers_cons_string]
    by_cases known : name ∈ names
    · rw [if_pos known, if_pos known]
      by_cases again : name ∈ taken.map Prod.fst
      · have repeated : ¬ ((taken ++ (name, value) :: knownMembers names entries).map
            Prod.fst).Nodup := fun nodup => not_mem_names_of_nodup nodup again
        rw [if_pos again, if_neg repeated]
        rfl
      · have nodup' : ((taken ++ [(name, value)]).map Prod.fst).Nodup := by
          rw [List.map_append]
          exact nodup.append (List.nodup_singleton name) (by simpa using again)
        rw [if_neg again]
        exact (induction later _ nodup').trans (by rw [List.append_assoc, List.singleton_append])
    · rw [if_neg known, if_neg known]
      exact induction later taken nodup

theorem count_knownMembers {names : List String} {entries : List (Value × Value)}
    (textKeys : TextKeys entries) (name : String) :
    ((knownMembers names entries).map Prod.fst).count name =
      if name ∈ names then (under entries name).length else 0 := by
  induction entries with
  | nil => simp [knownMembers, under]
  | cons entry entries induction =>
    obtain ⟨key, value⟩ := entry
    obtain ⟨other, rfl⟩ := textKeys _ List.mem_cons_self
    have later := induction fun other inside => textKeys other (List.mem_cons_of_mem _ inside)
    rw [knownMembers_cons_string, under_cons_string]
    by_cases same : other = name
    · subst same
      by_cases known : other ∈ names <;> simp [known, later]
    · by_cases known : other ∈ names <;> simp [known, same, later]

theorem lookup_knownMembers {names : List String} {entries : List (Value × Value)}
    (textKeys : TextKeys entries) {name : String} (known : name ∈ names) :
    (knownMembers names entries).lookup name = (under entries name).head? := by
  induction entries with
  | nil => rfl
  | cons entry entries induction =>
    obtain ⟨key, value⟩ := entry
    obtain ⟨other, rfl⟩ := textKeys _ List.mem_cons_self
    have later := induction fun other inside => textKeys other (List.mem_cons_of_mem _ inside)
    rw [knownMembers_cons_string, under_cons_string]
    by_cases same : other = name
    · subst same
      simp [known]
    · by_cases listed : other ∈ names
      · rw [if_pos listed, if_neg same, List.lookup_cons, beq_false_of_ne (Ne.symm same)]
        exact later
      · rw [if_neg listed, if_neg same]
        exact later

/-- No known name may stand twice. -/
theorem tableMembers?_eq {names : List String} {entries : List (Value × Value)}
    (textKeys : TextKeys entries) :
    (Value.table entries).tableMembers? names =
      if ∀ name ∈ names, (under entries name).length ≤ 1 then some (knownMembers names entries)
      else none := by
  have once : ((knownMembers names entries).map Prod.fst).Nodup ↔
      ∀ name ∈ names, (under entries name).length ≤ 1 := by
    rw [List.nodup_iff_count_le_one]
    simp only [count_knownMembers textKeys]
    constructor
    · intro counts name known
      have count := counts name
      rwa [if_pos known] at count
    · intro single name
      split
      · exact single name ‹_›
      · exact Nat.zero_le 1
  have folded := foldlM_addMember?_eq names textKeys [] List.nodup_nil
  rw [List.nil_append] at folded
  rw [tableMembers?, entries?, Option.bind_some, folded]
  simp only [once]

theorem members?_namedTable {names : List String} {members : List (String × Value)}
    (known : ∀ member ∈ members, member.1 ∈ names) (nodup : (members.map Prod.fst).Nodup) :
    (Json.namedTable members).members? names = some members := by
  have textKeys : TextKeys (members.map fun member => (.string member.1, member.2)) := by
    intro entry inside
    obtain ⟨member, _, rfl⟩ := List.mem_map.mp inside
    exact ⟨member.1, rfl⟩
  have all : knownMembers names (members.map fun member => (.string member.1, member.2)) =
      members := by
    rw [knownMembers, List.filterMap_map]
    have each : ∀ member ∈ members, ((fun entry : Value × Value =>
        (entry.1.text?.filter fun name => name ∈ names).map fun name => (name, entry.2)) ∘
          fun member => (Value.string member.1, member.2)) member = some member := by
      intro member inside
      simp [text?, known member inside]
    rw [List.filterMap_congr each, List.filterMap_some]
  have folded := foldlM_addMember?_eq names textKeys [] List.nodup_nil
  rw [List.nil_append, all, if_pos nodup] at folded
  exact folded

theorem nameTable?_namedTable (decode : Value → Option α) (members : List (String × Value)) :
    nameTable? decode (Json.namedTable members) =
      (members.mapM fun member => (decode member.2).map fun value => (member.1, value)).map
        Table.ofList := by
  have each : ∀ member : String × Value,
      (do return (← (string member.1).text?, ← decode member.2)) =
        (decode member.2).map fun value => (member.1, value) := by
    intro member
    cases found : decode member.2 <;> simp [text?]
  simp only [nameTable?, entries?, Json.namedTable, Option.bind_some, List.mapM_map,
    Function.comp_def, each]

end Value

/-! ## Decoding texts -/

namespace Json

/-- The text reads as a value that is decoded as the given one, wherever the nesting leaves room
for `depth` more levels. -/
def Decodes (decode : Value → Option α) (depth : Nat) (text : String) (meant : α) : Prop :=
  ∃ value, Reads depth text value ∧ decode value = some meant

theorem decodes_encode (text : String) : Decodes Value.text? 0 (Quoted.encode text) text :=
  ⟨.string text, reads_encode text, rfl⟩

/-- Texts of members, each with the name of an entry and a text that decodes as its value. -/
def DecodesEach (decode : Value → Option α) (depth : Nat) :
    List (String × String) → List (String × α) → Prop :=
  List.Forall₂ fun text entry => text.1 = entry.1 ∧ Decodes decode depth text.2 entry.2

variable {decode : Value → Option α} {depth : Nat}

theorem decodesEach_map {entries : List (String × α)} {write : String × α → String}
    (decodes : ∀ entry ∈ entries, Decodes decode depth (write entry) entry.2) :
    DecodesEach decode depth (entries.map fun entry => (entry.1, write entry)) entries := by
  rw [DecodesEach, List.forall₂_map_left_iff, List.forall₂_same]
  exact fun entry inside => ⟨rfl, decodes entry inside⟩

theorem DecodesEach.members {texts : List (String × String)} {entries : List (String × α)}
    (decodes : DecodesEach decode depth texts entries) :
    ∃ members : List (String × Value),
      List.Forall₂ (fun text member => text.1 = member.1 ∧ Reads depth text.2 member.2)
        texts members ∧
      members.mapM (fun member => (decode member.2).map fun value => (member.1, value)) =
        some entries := by
  induction decodes with
  | nil => exact ⟨[], .nil, rfl⟩
  | @cons text entry texts entries first others induction =>
    obtain ⟨name, value, read, same⟩ := first
    obtain ⟨members, reads, all⟩ := induction
    exact ⟨(entry.1, value) :: members, .cons ⟨name, read⟩ reads, by
      simp [List.mapM_cons, same, all]⟩

theorem Decodes.map {β : Type} {text : String} {meant : α}
    (decodes : Decodes decode depth text meant) (change : α → β) :
    Decodes (fun value => (decode value).map change) depth text (change meant) := by
  obtain ⟨value, reads, same⟩ := decodes
  exact ⟨value, reads, by simp [same]⟩

theorem Decodes.list {texts : List String} {items : List α}
    (decodes : List.Forall₂ (Decodes decode depth) texts items) :
    Decodes (Value.listOf? decode) (depth + 1) (listText texts) items := by
  have values : ∃ values, List.Forall₂ (Reads depth) texts values ∧
      values.mapM decode = some items := by
    induction decodes with
    | nil => exact ⟨[], .nil, rfl⟩
    | cons first others induction =>
      obtain ⟨value, read, same⟩ := first
      obtain ⟨values, reads, all⟩ := induction
      exact ⟨value :: values, .cons read reads, by simp [List.mapM_cons, same, all]⟩
  obtain ⟨values, reads, all⟩ := values
  exact ⟨.list values, reads_listText reads, all⟩

/-- No name of a table is repeated, so its entries are inserted one behind another. -/
theorem Decodes.table {texts : List (String × String)} {table : Table α}
    (decodes : DecodesEach decode depth texts table.entries) :
    Decodes (Value.nameTable? decode) (depth + 1) (tableText texts) table := by
  obtain ⟨members, reads, all⟩ := decodes.members
  refine ⟨namedTable members, reads_tableText reads, ?_⟩
  rw [Value.nameTable?_namedTable, all, Option.map_some, Table.ofList_entries]

end Json

theorem Layout.parse_json_of_decodes {layout : Layout α} {depth : Nat} {text : String} {meant : α}
    (decodes : Json.Decodes layout.decode depth text meant)
    (shallow : depth ≤ Json.State.depthLimit) (label : String) :
    layout.parse .json label text = .ok meant := by
  obtain ⟨value, reads, same⟩ := decodes
  simp [Layout.parse, Layout.read?, Json.read?_of_reads reads shallow, same]

end ScopedSchema
