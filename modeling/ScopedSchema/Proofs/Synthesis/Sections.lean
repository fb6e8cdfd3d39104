import ScopedSchema.Proofs.Synthesis.Coverage
import ScopedSchema.Proofs.Synthesis.Isolation
import ScopedSchema.Proofs.Synthesis.Retention

/-!
# Sections and modules

A module prints the same object as the sections do. The sections come in the order in which the
entries first contribute to them, and each of them merges what is contributed to it, however the
entries of other sections stand in between.
-/

namespace ScopedSchema

namespace Tree

/-- What is known already, then a name if it is new, then the new names behind it. -/
theorem append_eraseDups_cons (known : List String) (name : String) (rest : List String) :
    known ++ ((name :: rest).removeAll known).eraseDups =
      (known ++ [name].filter fun name => name ∉ known) ++
        (rest.removeAll (known ++ [name].filter fun name => name ∉ known)).eraseDups := by
  by_cases old : name ∈ known
  · simp [List.removeAll, old]
  · have new : [name].filter (fun name => name ∉ known) = [name] := by simp [old]
    have first : (name :: rest).removeAll known = name :: rest.removeAll known := by
      simp [List.removeAll, old]
    rw [new, first, List.eraseDups_cons, List.append_assoc]
    congr 3
    simp only [List.removeAll, List.filter_filter]
    apply List.filter_congr
    intro other _
    by_cases same : other = name <;> simp [same]

/-- Objects of one member each add the names that are new, once each and in their order. -/
theorem names_foldl_merge_singles (parts start : List (String × Tree)) :
    ∃ merged, (parts.map fun part => single part.1 part.2).foldl merge (.object start) =
        .object merged ∧
      merged.map Prod.fst = start.map Prod.fst ++
        ((parts.map Prod.fst).removeAll (start.map Prod.fst)).eraseDups := by
  induction parts generalizing start with
  | nil => exact ⟨start, rfl, by simp [List.removeAll]⟩
  | cons part rest induction =>
      obtain ⟨merged, folded, names⟩ := induction (mergeMembers start [part])
      have once : ([part].map Prod.fst).Nodup := List.nodup_singleton part.1
      refine ⟨merged, ?_, ?_⟩
      · rw [List.map_cons, List.foldl_cons, single, merge_object_object]
        exact folded
      · rw [names, names_mergeMembers once]
        exact (append_eraseDups_cons _ part.1 _).symm

end Tree

variable {context : Context} {model : String}

/-- The entries that contribute a tree. -/
def Context.contributors (context : Context) (model : String) : List AllowEntry :=
  context.allow.entries.filter fun entry => (entry.tree? context model).isSome

theorem filterMap_contributors : (context.contributors model).filterMap
    (AllowEntry.tree? context model) =
      context.allow.entries.filterMap (AllowEntry.tree? context model) := by
  rw [Context.contributors, List.filterMap_filter]
  apply List.filterMap_congr
  intro entry _
  cases entry.tree? context model <;> rfl

/-- Contributed trees are objects of one member, under the first keys of their entries. -/
theorem exists_parts (context : Context) (model : String) (entries : List AllowEntry) :
    ∃ parts : List (String × Tree),
      entries.filterMap (AllowEntry.tree? context model) =
        parts.map (fun part => Tree.single part.1 part.2) ∧
      (entries.filter fun entry => (entry.tree? context model).isSome).filterMap
        (fun entry => entry.keys.head?) = parts.map Prod.fst := by
  induction entries with
  | nil => exact ⟨[], rfl, rfl⟩
  | cons entry rest induction =>
      obtain ⟨parts, trees, heads⟩ := induction
      cases found : entry.tree? context model with
      | none =>
          refine ⟨parts, ?_, ?_⟩
          · rw [List.filterMap_cons_none found, trees]
          · rw [List.filter_cons, found]
            exact heads
      | some tree =>
          obtain ⟨key, others, value, split, same⟩ := AllowEntry.exists_single_of_tree? found
          refine ⟨(key, value) :: parts, ?_, ?_⟩
          · rw [List.filterMap_cons_some found, trees, same]
            rfl
          · rw [List.filter_cons, found]
            simp only [Option.isSome_some, if_true]
            rw [List.filterMap_cons, split, heads]
            rfl

/-- A schema is an object with one member for each first key of the entries that contribute. -/
theorem exists_members_buildSchema {schema : Tree}
    (built : buildSchema context model = .ok schema) :
    ∃ members, schema = .object members ∧ members.map Prod.fst =
      ((context.contributors model).filterMap fun entry => entry.keys.head?).eraseDups := by
  obtain ⟨parts, trees, heads⟩ := exists_parts context model context.allow.entries
  obtain ⟨members, folded, names⟩ := Tree.names_foldl_merge_singles parts []
  refine ⟨members, ?_, ?_⟩
  · rw [(buildSchema_eq_ok_iff.mp built).2.2, trees]
    exact folded
  · rw [names, Context.contributors, heads]
    simp [List.removeAll]

theorem distinct_buildSchema {schema : Tree} (built : buildSchema context model = .ok schema) :
    schema.Distinct := by
  rw [(buildSchema_eq_ok_iff.mp built).2.2]
  apply Tree.distinct_foldl_merge Tree.distinct_emptyObject
  intro tree member
  obtain ⟨entry, _, contributed⟩ := mem_trees_iff.mp member
  exact Synthesis.distinct_of_walk contributed

theorem generateModule_eq_map (bare : isBareIdentifier model = true) :
    generateModule context model =
      (buildSections context model).map fun sections => moduleText model (.object sections) := by
  rw [generateModule, if_pos bare, buildSections]
  cases built : buildSchema context model with
  | error problem => rfl
  | ok schema =>
      obtain ⟨members, same, _⟩ := exists_members_buildSchema built
      rw [same]
      show Except.ok (moduleText model (Tree.object members).render) = _
      rw [Tree.render_object]
      rfl

theorem names_buildSections {sections : List (String × Expr)}
    (built : buildSections context model = .ok sections) :
    sections.map Prod.fst =
      ((context.contributors model).filterMap fun entry => entry.keys.head?).eraseDups ∧
    (sections.map Prod.fst).Nodup := by
  obtain ⟨schema, built, rendered⟩ := Outcome.map_eq_ok_iff.mp built
  obtain ⟨members, same, names⟩ := exists_members_buildSchema built
  have keys : sections.map Prod.fst = members.map Prod.fst := by
    rw [← rendered, same]
    show (members.map fun entry => (entry.1, entry.2.render)).map Prod.fst = _
    rw [List.map_map]
    rfl
  have distinct := distinct_buildSchema built
  rw [same, Tree.distinct_object_iff] at distinct
  exact ⟨keys.trans names, keys ▸ distinct.1⟩

theorem values_of_mem_buildSections {sections : List (String × Expr)}
    (built : buildSections context model = .ok sections) {key : String} {expr : Expr}
    (member : (key, expr) ∈ sections) :
    ∃ first rest, Tree.valuesAt key
        (context.allow.entries.filterMap (AllowEntry.tree? context model)) = first :: rest ∧
      expr = (rest.foldl Tree.merge first).render := by
  have found : sections.lookup key = some expr :=
    (lookup_eq_some_iff_of_nodup (names_buildSections built).2).mpr member
  rw [lookup_buildSections built] at found
  cases values : Tree.valuesAt key
      (context.allow.entries.filterMap (AllowEntry.tree? context model)) with
  | nil =>
      rw [values] at found
      cases found
  | cons first rest =>
      rw [values] at found
      exact ⟨first, rest, rfl, (Option.some.inj found).symm⟩

/-- A module is the object of the sections, in their order. Unless synthesis is endless, they are
built: one for each first key of the entries that contribute, in the order of their first
contribution, and each is the merge of what is contributed to it. -/
theorem generateModule_of_sections (registered : context.registry.hasModel model = true)
    (bare : isBareIdentifier model = true) :
    generateModule context model =
      (buildSections context model).map (fun sections => moduleText model (.object sections)) ∧
    (Outcome.Ends (buildSections context model) ↔ ¬ Synthesis.Endless context model) ∧
    (∀ entry tree, AllowEntry.tree? context model entry = some tree →
      ∃ key value, entry.keys.head? = some key ∧ tree = .single key value) ∧
    ∀ sections, buildSections context model = .ok sections →
      sections.map Prod.fst =
        ((context.contributors model).filterMap fun entry => entry.keys.head?).eraseDups ∧
      ∀ key expr, (key, expr) ∈ sections →
        ∃ first rest, Tree.valuesAt key
            ((context.contributors model).filterMap (AllowEntry.tree? context model)) =
              first :: rest ∧
          expr = (rest.foldl Tree.merge first).render := by
  refine ⟨generateModule_eq_map bare, buildSections_ends_iff registered, ?_, ?_⟩
  · intro entry tree found
    obtain ⟨key, rest, value, split, same⟩ := AllowEntry.exists_single_of_tree? found
    exact ⟨key, value, by rw [split]; rfl, same⟩
  · intro sections built
    refine ⟨(names_buildSections built).1, ?_⟩
    intro key expr member
    rw [filterMap_contributors]
    exact values_of_mem_buildSections built member

/-- Between two entries for the identifier stands one for the title. -/
def interleavedPosts : Context :=
  blog.withAllow (AllowList.ofPaths ["id.equals", "title", "id.contains"])

theorem generateModule_interleavedPosts :
    interleavedPosts.registry.hasModel "post" = true ∧ isBareIdentifier "post" = true ∧
      ∃ sections, buildSections interleavedPosts "post" = .ok sections ∧
        sections.map Prod.fst = ["id", "title"] ∧
        generateModule interleavedPosts "post" = .ok (moduleText "post" (.object sections)) := by
  have registered : interleavedPosts.registry.hasModel "post" = true := by decide
  have bare : isBareIdentifier "post" = true := by decide
  have schema : buildSchema interleavedPosts "post" = .ok (.object
      [("id", .object [("equals", .leaf .string), ("contains", .leaf .string)]),
        ("title", .leaf .string)]) := by rfl
  obtain ⟨same, _, _, sectioned⟩ := generateModule_of_sections registered bare
  have built := congrArg (Except.map sectionsOf) schema
  refine ⟨registered, bare, _, built, ?_, ?_⟩
  · rw [(sectioned _ built).1]
    rfl
  · rw [same, buildSections, schema]
    rfl

/-- The entry for the identifier contributes its section, and no module shows it. -/
theorem no_module_unnamedUsers :
    (unnamedUsers [".", "id"]).registry.hasModel "user" = true ∧ isBareIdentifier "user" = true ∧
      (AllowEntry.bare "id").tree? (unnamedUsers [".", "id"]) "user" =
        some (.single "id" (.leaf .string)) ∧
      ¬ Outcome.Ends (buildSections (unnamedUsers [".", "id"]) "user") ∧
      ¬ Outcome.Ends (generateModule (unnamedUsers [".", "id"]) "user") := by
  have registered : (unnamedUsers [".", "id"]).registry.hasModel "user" = true := by decide
  have bare : isBareIdentifier "user" = true := by decide
  have never : ¬ Outcome.Ends (buildSections (unnamedUsers [".", "id"]) "user") := by
    rw [buildSections_ends_iff registered]
    exact not_not_intro unnamedUsers_endless
  refine ⟨registered, bare, by rfl, never, ?_⟩
  rw [generateModule_eq_map bare, Outcome.ends_map_iff]
  exact never

end ScopedSchema
