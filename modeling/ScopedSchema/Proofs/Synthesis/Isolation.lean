import ScopedSchema.Proofs.Synthesis.Contribution
import ScopedSchema.Proofs.Tree.Member

/-!
# Sections do not depend on each other

Everything that a walk asks of the allow list is asked at its own places, which begin with the name
of its section. A section is therefore the same for the whole allow list and for the entries of its
own name alone. Only a relation without a name leads back to the empty path, where all entries
stand; if it never stops there, no section is built.
-/

namespace ScopedSchema

/-- The entries whose first key is the name of the section. -/
def AllowList.ofSection (list : AllowList) (key : String) : AllowList :=
  ⟨list.entries.filter fun entry => entry.keys.head? == some key⟩

variable {context : Context} {model : String}

theorem AllowList.mem_ofSection_iff {list : AllowList} {key : String} {entry : AllowEntry} :
    entry ∈ (list.ofSection key).entries ↔
      entry ∈ list.entries ∧ ∃ rest, entry.keys = key :: rest := by
  rw [ofSection, List.mem_filter, beq_iff_eq, List.head?_eq_some_iff]

/-! ## Sections -/

theorem lookup_sectionsOf {members : List (String × Tree)} (key : String) :
    (sectionsOf (.object members)).lookup key = (members.lookup key).map Tree.render := by
  show (members.map fun entry => (entry.1, entry.2.render)).lookup key = _
  induction members with
  | nil => rfl
  | cons entry rest induction =>
      rw [List.map_cons, List.lookup_cons, List.lookup_cons, induction]
      cases key == entry.1 <;> rfl

/-- A section merges what the entries contribute under its name. -/
theorem lookup_buildSections {sections : List (String × Expr)}
    (built : buildSections context model = .ok sections) (key : String) :
    sections.lookup key = (Tree.mergeAll (Tree.valuesAt key
      (context.allow.entries.filterMap (AllowEntry.tree? context model)))).map Tree.render := by
  obtain ⟨schema, built, rendered⟩ := Outcome.map_eq_ok_iff.mp built
  have objects : ∀ tree ∈ context.allow.entries.filterMap (AllowEntry.tree? context model),
      ∃ members, tree = .object members := by
    intro tree member
    obtain ⟨entry, _, found⟩ := List.mem_filterMap.mp member
    obtain ⟨_, _, value, _, same⟩ := AllowEntry.exists_single_of_tree? found
    exact ⟨_, same⟩
  obtain ⟨merged, folded, found⟩ := Tree.foldl_merge_objects objects []
  have schema : schema = .object merged := (buildSchema_eq_ok_iff.mp built).2.2.trans folded
  rw [← rendered, schema, lookup_sectionsOf, found key]
  rfl

/-- Entries of other names have nothing under the name of the section. -/
theorem valuesAt_ofSection (key : String) (list : AllowList) :
    Tree.valuesAt key (list.entries.filterMap (AllowEntry.tree? context model)) =
      Tree.valuesAt key ((list.ofSection key).entries.filterMap
        (AllowEntry.tree? context model)) := by
  unfold Tree.valuesAt AllowList.ofSection
  rw [List.filterMap_filterMap, List.filterMap_filterMap, List.filterMap_filter]
  apply List.filterMap_congr
  intro entry _
  by_cases own : entry.keys.head? = some key
  · rw [own, beq_self_eq_true, if_pos rfl]
  · rw [beq_false_of_ne own]
    cases found : entry.tree? context model with
    | none => rfl
    | some tree =>
        obtain ⟨other, rest, value, split, same⟩ := AllowEntry.exists_single_of_tree? found
        have different : (key == other) = false := by
          apply beq_false_of_ne
          intro equal
          rw [split, equal] at own
          exact own rfl
        rw [same]
        simp [Tree.memberOf?, Tree.single, List.lookup_cons, different]

/-! ## The places of a section -/

theorem head?_of_begins {key : String} {keys others : List String} (within : [key] <+: keys)
    (begins : keys <+: others) : others.head? = some key := by
  obtain ⟨rest, same⟩ := within.trans begins
  rw [← same]
  rfl

/-- At the places of a section, its own entries decide what is allowed and are all there is. -/
theorem sharesOn_ofSection (key : String) :
    Synthesis.SharesOn context (context.allow.ofSection key) (Path.Within [key]) where
  below := Path.within_child
  allowed := by
    intro path inside
    rw [Bool.eq_iff_iff, AllowList.isAllowed_iff, AllowList.isAllowed_iff]
    constructor
    · intro allowed
      obtain ⟨entry, member, begins⟩ := allowed
      exact ⟨entry, (List.mem_filter.mp member).1, begins⟩
    · intro allowed
      obtain ⟨entry, member, begins⟩ := allowed
      have own := beq_iff_eq.mpr (head?_of_begins inside.2 begins)
      exact ⟨entry, List.mem_filter.mpr ⟨member, own⟩, begins⟩
  descendants := by
    intro path inside
    have chosen : (context.allow.ofSection key).entries.filter (fun entry =>
        entry.isBelow (Path.keys path)) =
        context.allow.entries.filter fun entry => entry.isBelow (Path.keys path) := by
      rw [AllowList.ofSection, List.filter_filter]
      apply List.filter_congr
      intro entry _
      cases below : entry.isBelow (Path.keys path) with
      | false => rfl
      | true =>
          have begins : Path.keys path <+: entry.keys := by
            rw [← AllowEntry.isAt_or_isBelow_iff, below, Bool.or_true]
          rw [head?_of_begins inside.2 begins, beq_self_eq_true, Bool.true_and]
    simp only [AllowList.descendants, chosen]

/-- An entry of the section contributes the same under both lists. -/
theorem contribution_ofSection {key : String} {entry : AllowEntry} (named : key ≠ "")
    (free : Path.MarkerFree key) (ends : Outcome.Ends (entry.contribution context model))
    (member : entry ∈ (context.allow.ofSection key).entries)
    (ends' : Outcome.Ends
      (entry.contribution (context.withAllow (context.allow.ofSection key)) model)) :
    entry.contribution (context.withAllow (context.allow.ofSection key)) model =
      entry.contribution context model := by
  apply AllowEntry.contribution_congr ends ends'
  intro depth
  obtain ⟨_, rest, split⟩ := AllowList.mem_ofSection_iff.mp member
  rw [AllowEntry.keys_eq_map_segments] at split
  obtain ⟨segment, others, written, first, _⟩ := List.map_eq_cons_iff.mp split
  have inside : Path.Within [key] (Path.child "" (Path.keyOf segment)) := by
    have listed : segment ∈ Path.segments entry.path := by
      rw [← AllowEntry.segments, written]
      exact List.mem_cons_self
    have alone := Path.keys_keyOf listed
    rw [first, Path.keyOf_of_markerFree free] at alone
    rw [first, Path.child_empty]
    exact ⟨named, by rw [alone]⟩
  rw [written]
  exact (sharesOn_ofSection key).walk inside depth

/-- A section is the same for the whole allow list and for the entries of its own name. These always
give a result, and the whole list does unless its walks come back to the empty path for ever. -/
theorem lookup_buildSections_ofSection {key : String}
    (registered : context.registry.hasModel model = true) (named : key ≠ "")
    (free : Path.MarkerFree key) :
    ∃ own, buildSections (context.withAllow (context.allow.ofSection key)) model = .ok own ∧
      (Outcome.Ends (buildSections context model) ↔ ¬ Synthesis.Endless context model) ∧
      ∀ sections, buildSections context model = .ok sections →
        sections.lookup key = own.lookup key := by
  have finite : ¬ Synthesis.Endless (context.withAllow (context.allow.ofSection key)) model := by
    apply Synthesis.not_endless_of_named
    intro entry member rest split
    obtain ⟨_, _, own⟩ := AllowList.mem_ofSection_iff.mp member
    rw [split] at own
    exact named (List.cons.inj own).1.symm
  have sub : (context.withAllow (context.allow.ofSection key)).registry.hasModel model = true :=
    registered
  obtain ⟨own, built⟩ := (buildSections_ends_iff sub).mpr finite
  refine ⟨own, built, buildSections_ends_iff registered, ?_⟩
  intro sections whole
  have ends : ∀ entry ∈ context.allow.entries, Outcome.Ends (entry.contribution context model) := by
    obtain ⟨schema, whole, _⟩ := Outcome.map_eq_ok_iff.mp whole
    exact (buildSchema_eq_ok_iff.mp whole).2.1
  rw [lookup_buildSections whole, lookup_buildSections built, valuesAt_ofSection]
  have alike : (context.allow.ofSection key).entries.filterMap
      (AllowEntry.tree? (context.withAllow (context.allow.ofSection key)) model) =
      (context.allow.ofSection key).entries.filterMap (AllowEntry.tree? context model) := by
    apply List.filterMap_congr
    intro entry member
    have listed := (AllowList.mem_ofSection_iff.mp member).1
    have same := contribution_ofSection named free (ends entry listed) member
      (AllowEntry.contribution_ends finite entry)
    rw [AllowEntry.tree?, AllowEntry.tree?, same]
  rw [← alike]
  rfl

/-- Users with an identifier, and with a relation without a name that leads to users. -/
def unnamedUsers (paths : List String) : Context where
  registry :=
    { models := ⟨[("user", ⟨⟨[("", { typeTag := "user" }), ("id", { typeTag := "String" })],
        by decide⟩⟩)], by decide⟩
      enums := Table.empty }
  synonyms := Synonyms.empty
  allow := AllowList.ofPaths paths

theorem buildSections_id_unnamedUsers (paths : List String)
    (own : ((unnamedUsers (paths ++ ["id"])).allow.ofSection "id") = .ofPaths ["id"]) :
    buildSections ((unnamedUsers (paths ++ ["id"])).withAllow
      ((unnamedUsers (paths ++ ["id"])).allow.ofSection "id")) "user" = .ok [("id", .string)] := by
  have built : buildSchema ((unnamedUsers (paths ++ ["id"])).withAllow (.ofPaths ["id"])) "user" =
      .ok (.object [("id", .leaf .string)]) := by rfl
  rw [own, buildSections, built]
  simp [Except.map, sectionsOf, Tree.members?]

/-- Without its second segment, the entry for the relation leaves the other section alone. -/
theorem lookup_id_unnamedUsers :
    (unnamedUsers ["", "id"]).registry.hasModel "user" = true ∧ "id" ≠ "" ∧
      Path.MarkerFree "id" ∧
      ∃ sections, buildSections (unnamedUsers ["", "id"]) "user" = .ok sections ∧
        sections.lookup "id" = some .string := by
  have registered : (unnamedUsers ["", "id"]).registry.hasModel "user" = true := by decide
  have whole : buildSchema (unnamedUsers ["", "id"]) "user" =
      .ok (.object [("", .emptyObject), ("id", .leaf .string)]) := by rfl
  have built : buildSections (unnamedUsers ["", "id"]) "user" =
      .ok (sectionsOf (.object [("", .emptyObject), ("id", .leaf .string)])) := by
    rw [buildSections, whole]
    rfl
  have alone : buildSections ((unnamedUsers ["", "id"]).withAllow
      ((unnamedUsers ["", "id"]).allow.ofSection "id")) "user" = .ok [("id", .string)] :=
    buildSections_id_unnamedUsers [""] (by rfl)
  have named : "id" ≠ "" := by decide
  have free : Path.MarkerFree "id" := by decide
  obtain ⟨own, found, _, same⟩ := lookup_buildSections_ofSection registered named free
  refine ⟨registered, named, free, _, built, ?_⟩
  rw [same _ built]
  rw [alone] at found
  rw [← Except.ok.inj found]
  rfl

theorem unnamedUsers_endless : Synthesis.Endless (unnamedUsers [".", "id"]) "user" := by
  have next : Synthesis.unnamedTarget? (unnamedUsers [".", "id"]) "user" = some "user" := by rfl
  refine ⟨⟨.bare ".", List.mem_cons_self, [""], rfl, [], rfl, Or.inr (by simp)⟩, ?_⟩
  exact Synthesis.unnamedRun?_isSome_of_period Nat.one_pos (by
    rw [Synthesis.unnamedRun?, next]
    rfl)

/-- An entry that comes back to the empty path for ever takes the other sections with it. -/
theorem no_sections_unnamedUsers :
    (unnamedUsers [".", "id"]).registry.hasModel "user" = true ∧ "id" ≠ "" ∧
      Path.MarkerFree "id" ∧
      buildSections ((unnamedUsers [".", "id"]).withAllow
        ((unnamedUsers [".", "id"]).allow.ofSection "id")) "user" = .ok [("id", .string)] ∧
      ¬ ∃ sections, buildSections (unnamedUsers [".", "id"]) "user" = .ok sections := by
  refine ⟨by decide, by decide, by decide, buildSections_id_unnamedUsers ["."] (by rfl), ?_⟩
  intro built
  have registered : (unnamedUsers [".", "id"]).registry.hasModel "user" = true := by decide
  exact (buildSections_ends_iff registered).mp built unnamedUsers_endless

end ScopedSchema
