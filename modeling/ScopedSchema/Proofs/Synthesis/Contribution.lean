import ScopedSchema.Proofs.Synthesis.Coupling
import ScopedSchema.Proofs.Synthesis.Termination

/-!
# What an entry contributes

The contribution of an entry does not depend on the depth at which its walk comes to an end, so two
allow lists give an entry the same contribution if they do so at every depth. It stands under the
first key of the entry. Unless synthesis is endless, every entry has one.
-/

namespace ScopedSchema

variable {context : Context} {model : String}

theorem AllowEntry.keys_eq_map_segments (entry : AllowEntry) :
    entry.keys = entry.segments.map Path.keyOf :=
  rfl

/-- Whatever the depth at which a walk comes to its end, it ends with the same outcome. -/
theorem AllowEntry.contribution_of_walk {entry : AllowEntry} {depth : Nat} {found : Option Tree}
    (ends : Outcome.Ends (entry.contribution context model))
    (walked : Synthesis.walk context (Synthesis.nestedWithin context depth) entry.change?
      entry.segments none model "" = .ok found) :
    entry.contribution context model = .ok found := by
  obtain ⟨other, contributed⟩ := ends
  have deeper := Synthesis.walk_extends
    (Synthesis.nestedWithin_extends (Nat.le_max_left depth (Synthesis.nestingBound context))) walked
  have bounded := Synthesis.walk_extends
    (Synthesis.nestedWithin_extends (Nat.le_max_right depth (Synthesis.nestingBound context)))
    contributed
  rw [deeper] at bounded
  rw [contributed, Except.ok.inj bounded]

theorem AllowEntry.tree?_of_depth {entry : AllowEntry} {depth : Nat}
    (ends : Outcome.Ends (entry.contribution context model))
    (deep : Synthesis.nestingBound context ≤ depth) :
    entry.tree? context model = Outcome.found? (Synthesis.walk context
      (Synthesis.nestedWithin context depth) entry.change? entry.segments none model "") := by
  obtain ⟨found, contributed⟩ := ends
  rw [AllowEntry.tree?_eq_found?, contributed]
  have deeper := Synthesis.walk_extends (Synthesis.nestedWithin_extends deep) contributed
  rw [deeper]

/-- The allow lists may bound the depth differently. -/
theorem AllowEntry.contribution_congr {entry : AllowEntry} {allow : AllowList}
    (ends : Outcome.Ends (entry.contribution context model))
    (ends' : Outcome.Ends (entry.contribution (context.withAllow allow) model))
    (same : ∀ depth, Synthesis.walk (context.withAllow allow)
        (Synthesis.nestedWithin (context.withAllow allow) depth) entry.change? entry.segments none
        model "" =
      Synthesis.walk context (Synthesis.nestedWithin context depth) entry.change? entry.segments
        none model "") :
    entry.contribution (context.withAllow allow) model = entry.contribution context model := by
  obtain ⟨found, contributed⟩ := ends'
  have walked := contributed
  rw [AllowEntry.contribution, synthesize, same] at walked
  rw [contributed, AllowEntry.contribution_of_walk ends walked]

/-- What an entry contributes stands under its first key. -/
theorem AllowEntry.exists_single_of_tree? {entry : AllowEntry} {tree : Tree}
    (found : entry.tree? context model = some tree) :
    ∃ key rest value, entry.keys = key :: rest ∧ tree = .single key value := by
  have contributed := AllowEntry.tree?_eq_some_iff.mp found
  rw [AllowEntry.contribution, synthesize] at contributed
  rw [AllowEntry.keys_eq_map_segments]
  cases written : entry.segments with
  | nil =>
      rw [written] at contributed
      cases contributed
  | cons segment rest =>
      rw [written] at contributed
      obtain ⟨_, value, same, _⟩ := Synthesis.step_of_walk contributed
      exact ⟨Path.keyOf segment, rest.map Path.keyOf, value, rfl, same⟩

/-! ## Ends -/

theorem AllowEntry.contribution_ends (finite : ¬ Synthesis.Endless context model)
    (entry : AllowEntry) : Outcome.Ends (entry.contribution context model) :=
  Synthesis.walk_ends_iff.mpr (Synthesis.answered_of_not_endless finite entry.segments)

/-- Only an entry without a first name leads back to the empty path. -/
theorem Synthesis.not_endless_of_named (named : ∀ entry ∈ context.allow.entries, ∀ rest,
    entry.keys ≠ "" :: rest) : ¬ Synthesis.Endless context model := by
  intro endless
  obtain ⟨⟨entry, member, rest, split, _⟩, _⟩ := endless
  exact named entry member rest split

theorem buildSchema_of_not_endless (registered : context.registry.hasModel model = true)
    (finite : ¬ Synthesis.Endless context model) :
    buildSchema context model = .ok
      ((context.allow.entries.filterMap (AllowEntry.tree? context model)).foldl Tree.merge
        .emptyObject) := by
  have ends := fun entry (_ : entry ∈ context.allow.entries) =>
    AllowEntry.contribution_ends finite entry
  exact buildSchema_eq_ok_iff.mpr ⟨registered, ends, rfl⟩

theorem buildSections_ends_iff (registered : context.registry.hasModel model = true) :
    Outcome.Ends (buildSections context model) ↔ ¬ Synthesis.Endless context model := by
  rw [buildSections, Outcome.ends_map_iff]
  constructor
  · intro built endless
    obtain ⟨schema, built⟩ := built
    obtain ⟨entry, member, never⟩ :=
      Synthesis.not_walk_ends_of_endless endless (Synthesis.nestingBound context)
    exact never ((buildSchema_eq_ok_iff.mp built).2.1 entry member)
  · intro finite
    exact ⟨_, buildSchema_of_not_endless registered finite⟩

end ScopedSchema
