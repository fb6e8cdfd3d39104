import Mathlib.Data.List.Forall2

/-!
# Outcomes of lists of computations

A list of computations that may fail succeeds exactly if each of them does, and then gives their
results in order.
-/

namespace ScopedSchema

namespace Outcome

variable {α β ε : Type}

theorem map_eq_ok_iff {outcome : Except ε α} {change : α → β} {result : β} :
    outcome.map change = .ok result ↔ ∃ value, outcome = .ok value ∧ change value = result := by
  cases outcome <;> simp [Except.map]

theorem mapM_eq_ok_iff {run : α → Except ε β} {inputs : List α} {results : List β} :
    inputs.mapM run = .ok results ↔
      List.Forall₂ (fun input result => run input = .ok result) inputs results := by
  induction inputs generalizing results with
  | nil =>
      rw [List.mapM_nil, List.forall₂_nil_left_iff]
      constructor
      · intro same
        exact (Except.ok.inj same).symm
      · intro empty
        rw [empty]
        rfl
  | cons input rest induction =>
      rw [List.mapM_cons, List.forall₂_cons_left_iff]
      cases head : run input with
      | error problem => simp [bind, Except.bind]
      | ok value =>
          constructor
          · intro succeeded
            cases tail : rest.mapM run with
            | error problem => simp [tail, bind, Except.bind] at succeeded
            | ok values =>
                rw [tail] at succeeded
                exact ⟨value, values, rfl, induction.mp tail, (Except.ok.inj succeeded).symm⟩
          · intro split
            rcases split with ⟨first, values, same, others, all⟩
            rw [induction.mpr others, Except.ok.inj same, all]
            rfl

theorem mapM_congr {run run' : α → Except ε β} {inputs : List α}
    (same : ∀ input ∈ inputs, run input = run' input) : inputs.mapM run = inputs.mapM run' := by
  induction inputs with
  | nil => rfl
  | cons input rest induction =>
      rw [List.mapM_cons, List.mapM_cons, same input List.mem_cons_self,
        induction fun other member => same other (List.mem_cons_of_mem _ member)]

theorem mapM_eq_of_forall₂ {γ : Type} {run : α → Except ε β} {run' : γ → Except ε β}
    {inputs : List α} {inputs' : List γ}
    (same : List.Forall₂ (fun input input' => run input = run' input') inputs inputs') :
    inputs.mapM run = inputs'.mapM run' := by
  induction same with
  | nil => rfl
  | cons here _ induction => rw [List.mapM_cons, List.mapM_cons, here, induction]

/-- The results may be changed one by one as they come, or all at the end. -/
theorem map_mapM {γ : Type} (run : α → Except ε β) (change : β → γ) (inputs : List α) :
    (inputs.mapM run).map (List.map change) = inputs.mapM fun input => (run input).map change := by
  induction inputs with
  | nil => rfl
  | cons input rest induction =>
      rw [List.mapM_cons, List.mapM_cons, ← induction]
      cases run input with
      | error problem => rfl
      | ok value => cases rest.mapM run <;> rfl

section Found

variable {γ : Type} {run : α → Except ε (Option β)}

theorem map_mapM_cons {input : α} {value : Option β} (here : run input = .ok value)
    (rest : List α) (change : List β → γ) :
    ((input :: rest).mapM run).map (fun found => change (found.filterMap id)) =
      (rest.mapM run).map fun found => change (value.toList ++ found.filterMap id) := by
  rw [List.mapM_cons, here]
  cases rest.mapM run with
  | error problem => rfl
  | ok found =>
      cases value with
      | none => rfl
      | some result => rfl

/-- A computation that gives nothing may be left out. -/
theorem mapM_without {skipped : α} (nothing : run skipped = .ok none) (before after : List α)
    (change : List β → γ) :
    ((before ++ skipped :: after).mapM run).map (fun found => change (found.filterMap id)) =
      ((before ++ after).mapM run).map fun found => change (found.filterMap id) := by
  induction before generalizing change with
  | nil => exact map_mapM_cons nothing after change
  | cons first rest induction =>
      rw [List.cons_append, List.cons_append]
      cases here : run first with
      | error problem =>
          rw [List.mapM_cons, List.mapM_cons, here]
          rfl
      | ok value =>
          rw [map_mapM_cons here, map_mapM_cons here]
          exact induction fun found => change (value.toList ++ found)

end Found

/-- What a computation has found, if it comes to a result and finds anything. -/
def found? : Except ε (Option β) → Option β
  | .ok found => found
  | .error _ => none

theorem found?_map {γ : Type} (outcome : Except ε (Option β)) (change : β → γ) :
    found? (outcome.map (Option.map change)) = (found? outcome).map change := by
  cases outcome <;> rfl

theorem filterMap_found? {run : α → Except ε (Option β)} {inputs : List α}
    {results : List (Option β)}
    (all : List.Forall₂ (fun input result => run input = .ok result) inputs results) :
    results.filterMap id = inputs.filterMap fun input => found? (run input) := by
  induction all with
  | nil => rfl
  | cons here _ induction =>
      rw [List.filterMap_cons, List.filterMap_cons, induction, here]
      rfl

/-- The computation comes to a result. -/
def Ends (outcome : Except ε α) : Prop := ∃ value, outcome = .ok value

theorem ends_ok (value : α) : Ends (.ok value : Except ε α) := ⟨value, rfl⟩

theorem not_ends_error (problem : ε) : ¬ Ends (.error problem : Except ε α) := by
  intro ends
  rcases ends with ⟨value, same⟩
  cases same

theorem ends_map_iff {outcome : Except ε α} {change : α → β} :
    Ends (outcome.map change) ↔ Ends outcome := by
  constructor
  · intro ends
    rcases ends with ⟨result, mapped⟩
    rcases map_eq_ok_iff.mp mapped with ⟨value, found, _⟩
    exact ⟨value, found⟩
  · intro ends
    rcases ends with ⟨value, found⟩
    exact ⟨change value, map_eq_ok_iff.mpr ⟨value, found, rfl⟩⟩

theorem ends_mapM_iff {run : α → Except ε β} {inputs : List α} :
    Ends (inputs.mapM run) ↔ ∀ input ∈ inputs, Ends (run input) := by
  induction inputs with
  | nil =>
      constructor
      · intro _ input member
        cases member
      · intro _
        exact ends_ok []
  | cons input rest induction =>
      unfold Ends at induction ⊢
      simp only [mapM_eq_ok_iff] at induction ⊢
      rw [List.forall_mem_cons, ← induction]
      constructor
      · intro ends
        rcases ends with ⟨results, all⟩
        rcases List.forall₂_cons_left_iff.mp all with ⟨result, others, here, later, _⟩
        exact ⟨⟨result, here⟩, ⟨others, later⟩⟩
      · intro ends
        rcases ends with ⟨⟨result, here⟩, ⟨others, later⟩⟩
        exact ⟨result :: others, List.Forall₂.cons here later⟩

end Outcome

end ScopedSchema
