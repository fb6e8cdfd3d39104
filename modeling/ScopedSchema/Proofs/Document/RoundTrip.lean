import ScopedSchema.Proofs.Document.Record
import ScopedSchema.Registry.Document
import ScopedSchema.Synonyms.Document

/-!
# Registry and synonym documents round-trip

What is written of a registry or of synonyms is read as the same thing again, whatever the names and
texts in it, and with all orders kept. A flag that does not hold may also be left out of the text of
its field.
-/

namespace ScopedSchema

namespace Field

/-- The flags under the names that they are written under. -/
def flags (field : Field) : List (String × Bool) :=
  [("isOptional", field.isOptional), ("isList", field.isList), ("isUnique", field.isUnique),
    ("isId", field.isId)]

/-- The flags that are written if `left` picks what to leave out of those that do not hold. -/
def keptFlags (field : Field) (left : String → Bool) : List (String × Bool) :=
  field.flags.filter fun flag => flag.2 || !left flag.1

def jsonTextOmitting (field : Field) (left : String → Bool) : String :=
  Json.tableText (("fieldType", Quoted.encode field.typeTag) ::
    (field.keptFlags left).map fun flag => (flag.1, Json.flagText flag.2))

theorem jsonTextOmitting_none (field : Field) :
    (field.jsonTextOmitting fun _ => false) = field.jsonText := by
  simp [jsonTextOmitting, keptFlags, flags, jsonText]

example : (Field.mk "Int" true false false false).jsonTextOmitting (fun name => name = "isList") =
    "\x7b\"fieldType\":\"Int\",\"isOptional\":true,\"isUnique\":false,\"isId\":false\x7d" := by
  decide

theorem names_flags (field : Field) : "fieldType" :: field.flags.map Prod.fst = memberNames := rfl

theorem names_flags_distinct (field : Field) :
    "fieldType" ∉ field.flags.map Prod.fst ∧ (field.flags.map Prod.fst).Nodup := by
  rw [← List.nodup_cons, names_flags]
  decide

/-- What a field is read from: a flag that is left out does not hold. -/
def membersOmitting (field : Field) (left : String → Bool) : List (String × Value) :=
  ("fieldType", .string field.typeTag) ::
    (field.keptFlags left).map fun flag => (flag.1, .bool flag.2)

theorem names_membersOmitting_sublist (field : Field) (left : String → Bool) :
    ((field.membersOmitting left).map Prod.fst).Sublist memberNames := by
  have kept : ((field.keptFlags left).map Prod.fst).Sublist (field.flags.map Prod.fst) :=
    List.filter_sublist.map Prod.fst
  have names : (field.membersOmitting left).map Prod.fst =
      "fieldType" :: (field.keptFlags left).map Prod.fst := by
    simp [membersOmitting]
  rw [names, ← names_flags field]
  exact kept.cons_cons "fieldType"

theorem memberOr?_membersOmitting {field : Field} {name : String} {flag : Bool}
    (written : (name, flag) ∈ field.flags) (left : String → Bool) :
    Value.memberOr? (field.membersOmitting left) name false Value.flag? = some flag := by
  have nodup : ((field.membersOmitting left).map Prod.fst).Nodup :=
    (names_membersOmitting_sublist field left).nodup (by decide)
  by_cases kept : (flag || !left name) = true
  · have member : (name, Value.bool flag) ∈ field.membersOmitting left := by
      refine List.mem_cons_of_mem _ (List.mem_map.mpr ⟨(name, flag), ?_, rfl⟩)
      exact List.mem_filter.mpr ⟨written, kept⟩
    rw [Value.memberOr?, (lookup_eq_some_iff_of_nodup nodup).mpr member]
    rfl
  · have down : flag = false := by
      cases flag
      · rfl
      · simp at kept
    have absent : (field.membersOmitting left).lookup name = none := by
      rw [lookup_eq_none_iff]
      intro inside
      obtain ⟨other, same, named⟩ := List.mem_map.mp inside
      rcases List.mem_cons.mp same with rfl | flagged
      · obtain rfl : "fieldType" = name := named
        exact (names_flags_distinct field).1 (List.mem_map_of_mem written)
      · obtain ⟨⟨name', flag'⟩, flagKept, rfl⟩ := List.mem_map.mp flagged
        obtain rfl : name' = name := named
        obtain ⟨also, holds⟩ := List.mem_filter.mp flagKept
        rw [eq_of_mem_of_nodup (names_flags_distinct field).2 also written] at holds
        exact kept holds
    rw [Value.memberOr?, absent, down]

theorem decodes_jsonTextOmitting (field : Field) (left : String → Bool) :
    Json.Decodes ofValue? 1 (field.jsonTextOmitting left) field := by
  have parts : List.Forall₂ (fun text member => text.1 = member.1 ∧ Json.Reads 0 text.2 member.2)
      (("fieldType", Quoted.encode field.typeTag) ::
        (field.keptFlags left).map fun flag => (flag.1, Json.flagText flag.2))
      (field.membersOmitting left) := by
    refine .cons ⟨rfl, Json.reads_encode field.typeTag⟩ ?_
    rw [List.forall₂_map_left_iff, List.forall₂_map_right_iff, List.forall₂_same]
    exact fun flag _ => ⟨rfl, Json.reads_flagText flag.2⟩
  refine ⟨_, Json.reads_tableText parts, ?_⟩
  have names := names_membersOmitting_sublist field left
  have members : (Json.namedTable (field.membersOmitting left)).members? memberNames =
      some (field.membersOmitting left) :=
    Value.members?_namedTable
      (fun member inside => names.subset (List.mem_map_of_mem inside)) (names.nodup (by decide))
  have typeTag : ((field.membersOmitting left).lookup "fieldType").bind Value.text? =
      some field.typeTag := rfl
  have optional : Value.memberOr? (field.membersOmitting left) "isOptional" false Value.flag? =
      some field.isOptional := memberOr?_membersOmitting (by simp [flags]) left
  have list : Value.memberOr? (field.membersOmitting left) "isList" false Value.flag? =
      some field.isList := memberOr?_membersOmitting (by simp [flags]) left
  have unique : Value.memberOr? (field.membersOmitting left) "isUnique" false Value.flag? =
      some field.isUnique := memberOr?_membersOmitting (by simp [flags]) left
  have id : Value.memberOr? (field.membersOmitting left) "isId" false Value.flag? =
      some field.isId := memberOr?_membersOmitting (by simp [flags]) left
  simp [ofValue?, members, typeTag, optional, list, unique, id]

end Field

namespace Model

def jsonTextOmitting (model : Model) (left : String → String → Bool) : String :=
  Json.tableText (model.fields.entries.map fun entry =>
    (entry.1, entry.2.jsonTextOmitting (left entry.1)))

theorem jsonTextOmitting_none (model : Model) :
    (model.jsonTextOmitting fun _ _ => false) = model.jsonText := by
  simp [jsonTextOmitting, Field.jsonTextOmitting_none, jsonText]

theorem decodes_jsonTextOmitting (model : Model) (left : String → String → Bool) :
    Json.Decodes ofValue? 2 (model.jsonTextOmitting left) model := by
  have fields : Json.Decodes (Value.nameTable? Field.ofValue?) 2 (model.jsonTextOmitting left)
      model.fields := by
    refine Json.Decodes.table (Json.decodesEach_map fun entry _ => ?_)
    exact entry.2.decodes_jsonTextOmitting (left entry.1)
  exact fields.map Model.mk

end Model

theorem Json.decodes_names (table : Table (List String)) :
    Json.Decodes (Value.nameTable? (Value.listOf? Value.text?)) 2
      (Json.tableText (table.entries.map fun entry =>
        (entry.1, Json.listText (entry.2.map Quoted.encode)))) table := by
  refine Json.Decodes.table (Json.decodesEach_map fun entry _ => Json.Decodes.list ?_)
  rw [List.forall₂_map_left_iff, List.forall₂_same]
  exact fun text _ => Json.decodes_encode text

namespace Registry

/-- The text of the registry, where `left` picks by model, field and flag what to leave out of the
flags that do not hold. -/
def jsonTextOmitting (registry : Registry) (left : String → String → String → Bool) : String :=
  Json.tableText [
    ("models", Json.tableText (registry.models.entries.map fun entry =>
      (entry.1, entry.2.jsonTextOmitting (left entry.1)))),
    ("enums", Json.tableText (registry.enums.entries.map fun entry =>
      (entry.1, Json.listText (entry.2.map Quoted.encode))))]

theorem jsonTextOmitting_none (registry : Registry) :
    (registry.jsonTextOmitting fun _ _ _ => false) = registry.jsonText := by
  simp [jsonTextOmitting, Model.jsonTextOmitting_none, jsonText]

theorem decodes_jsonTextOmitting (registry : Registry) (left : String → String → String → Bool) :
    Json.Decodes ofValue? 4 (registry.jsonTextOmitting left) registry := by
  have decodesModels : Json.Decodes (Value.nameTable? Model.ofValue?) 3
      (Json.tableText (registry.models.entries.map fun entry =>
        (entry.1, entry.2.jsonTextOmitting (left entry.1)))) registry.models := by
    refine Json.Decodes.table (Json.decodesEach_map fun entry _ => ?_)
    exact entry.2.decodes_jsonTextOmitting (left entry.1)
  obtain ⟨models, readsModels, sameModels⟩ := decodesModels
  obtain ⟨enums, readsEnums, sameEnums⟩ := Json.decodes_names registry.enums
  have parts : List.Forall₂ (fun text member => text.1 = member.1 ∧ Json.Reads 3 text.2 member.2)
      [("models", Json.tableText (registry.models.entries.map fun entry =>
          (entry.1, entry.2.jsonTextOmitting (left entry.1)))),
        ("enums", Json.tableText (registry.enums.entries.map fun entry =>
          (entry.1, Json.listText (entry.2.map Quoted.encode))))]
      [("models", models), ("enums", enums)] :=
    .cons ⟨rfl, readsModels⟩ (.cons ⟨rfl, readsEnums.deeper (by decide)⟩ .nil)
  have members : (Json.namedTable [("models", models), ("enums", enums)]).members?
      ["models", "enums"] = some [("models", models), ("enums", enums)] :=
    Value.members?_namedTable (by simp) (by simp)
  refine ⟨_, Json.reads_tableText parts, ?_⟩
  simp [ofValue?, members, Value.memberOr?, sameModels, sameEnums, List.lookup_cons]

end Registry

theorem Synonyms.decodes_jsonText (synonyms : Synonyms) :
    Json.Decodes ofValue? 2 synonyms.jsonText synonyms :=
  (Json.decodes_names synonyms.aliases).map Synonyms.mk

/-- Registries and synonyms are read back from their texts, each equal to what was written, orders
included. A registry is so too when any of the flags that do not hold are left out. -/
theorem parse_jsonText (label : String) :
    (∀ registry : Registry,
      Registry.layout.parse .json label registry.jsonText = .ok registry) ∧
    (∀ (registry : Registry) (left : String → String → String → Bool),
      Registry.layout.parse .json label (registry.jsonTextOmitting left) = .ok registry) ∧
    (∀ synonyms : Synonyms,
      Synonyms.layout.parse .json label synonyms.jsonText = .ok synonyms) := by
  have omitting (registry : Registry) (left : String → String → String → Bool) :
      Registry.layout.parse .json label (registry.jsonTextOmitting left) = .ok registry :=
    Layout.parse_json_of_decodes (registry.decodes_jsonTextOmitting left) (by decide) label
  refine ⟨fun registry => ?_, omitting, fun synonyms => ?_⟩
  · rw [← registry.jsonTextOmitting_none]
    exact omitting registry _
  · exact Layout.parse_json_of_decodes synonyms.decodes_jsonText (by decide) label

end ScopedSchema
