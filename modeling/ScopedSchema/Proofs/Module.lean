import ScopedSchema.Module
import ScopedSchema.Proofs.Synthesis.Outcome

/-!
# A schema is the merge of what its entries contribute

A schema is built exactly if the walk of each entry comes to an end. It is then the merge, from the
first entry to the last, of the trees of those that contribute one.
-/

namespace ScopedSchema

/-- The tree of an entry that contributes one. -/
def AllowEntry.tree? (context : Context) (model : String) (entry : AllowEntry) : Option Tree :=
  match entry.contribution context model with
  | .ok found => found
  | .error _ => none

variable {context : Context} {model : String}

theorem AllowEntry.tree?_eq_some_iff {entry : AllowEntry} {tree : Tree} :
    entry.tree? context model = some tree ↔
      entry.contribution context model = .ok (some tree) := by
  unfold AllowEntry.tree?
  cases entry.contribution context model with
  | error problem => simp
  | ok found => simp

theorem AllowEntry.tree?_eq_found? (entry : AllowEntry) :
    entry.tree? context model = Outcome.found? (entry.contribution context model) := by
  unfold AllowEntry.tree?
  cases entry.contribution context model <;> rfl

theorem trees_of_contributions {entries : List AllowEntry} {results : List (Option Tree)}
    (all : List.Forall₂ (fun entry result =>
      AllowEntry.contribution context model entry = .ok result) entries results) :
    results.filterMap id = entries.filterMap (AllowEntry.tree? context model) := by
  rw [Outcome.filterMap_found? all]
  exact List.filterMap_congr fun entry _ => (AllowEntry.tree?_eq_found? entry).symm

/-- A schema is built exactly if the walk of each entry comes to an end, and it merges what the
entries contribute. -/
theorem buildSchema_eq_ok_iff {schema : Tree} :
    buildSchema context model = .ok schema ↔
      context.registry.hasModel model = true ∧
        (∀ entry ∈ context.allow.entries,
          Outcome.Ends (AllowEntry.contribution context model entry)) ∧
        schema = (context.allow.entries.filterMap (AllowEntry.tree? context model)).foldl Tree.merge
          .emptyObject := by
  unfold buildSchema
  split
  · rename_i registered
    rw [Outcome.map_eq_ok_iff, ← Outcome.ends_mapM_iff]
    simp only [Outcome.Ends, Outcome.mapM_eq_ok_iff]
    constructor
    · intro built
      rcases built with ⟨results, all, merged⟩
      rw [trees_of_contributions all] at merged
      exact ⟨registered, ⟨results, all⟩, merged.symm⟩
    · intro built
      rcases built with ⟨_, ⟨results, all⟩, merged⟩
      rw [← trees_of_contributions all] at merged
      exact ⟨results, all, merged.symm⟩
  · rename_i unregistered
    simp [unregistered]

theorem mem_trees_iff {tree : Tree} :
    tree ∈ context.allow.entries.filterMap (AllowEntry.tree? context model) ↔
      ∃ entry ∈ context.allow.entries, entry.contribution context model = .ok (some tree) := by
  rw [List.mem_filterMap]
  simp only [AllowEntry.tree?_eq_some_iff]

end ScopedSchema
