import ScopedSchema.Proofs.Synthesis.Coupling
import ScopedSchema.Proofs.Synthesis.Retention
import ScopedSchema.Proofs.Tree.Rendering

/-!
# Listing everything twice

An allow list that is written twice allows the same paths and lists the same literals, but every
relation finds each entry below it twice. The trees grow by that, at every depth again, and are
printed as before.
-/

namespace ScopedSchema

/-- The same entries, and then all of them again. -/
def AllowList.twice (list : AllowList) : AllowList := ⟨list.entries ++ list.entries⟩

namespace AllowList

variable (list : AllowList)

theorem isAllowed_twice (path : String) : list.twice.isAllowed path = list.isAllowed path := by
  rw [isAllowed, isAllowed, twice, List.any_append, Bool.or_self]

theorem descendants_twice (path : String) :
    list.twice.descendants path = list.descendants path ++ list.descendants path := by
  unfold descendants twice
  simp only [List.filter_append, List.map_append]

theorem depth_twice : list.twice.depth = list.depth := by
  have settled : ∀ (entries : List AllowEntry) (bound : Nat),
      (∀ entry ∈ entries, entry.segments.length ≤ bound) →
        entries.foldl (fun bound entry => max bound entry.segments.length) bound = bound := by
    intro entries bound all
    induction entries with
    | nil => rfl
    | cons entry rest induction =>
        rw [List.forall_mem_cons] at all
        rw [List.foldl_cons, Nat.max_eq_left all.1]
        exact induction all.2
  rw [depth, twice, List.foldl_append]
  exact settled list.entries list.depth fun entry member => length_segments_le_depth member

end AllowList

namespace Synthesis

open Outcome
open ScopedSchema.Tree

variable {context : Context}

/-! ## Literals -/

/-- Adds a literal that has not been seen yet. -/
def addNew (seen : List String) (literal : String) : List String :=
  if seen.contains literal then seen else seen ++ [literal]

theorem mem_addNew_iff {seen : List String} {literal other : String} :
    other ∈ addNew seen literal ↔ other ∈ seen ∨ other = literal := by
  unfold addNew
  by_cases known : literal ∈ seen
  · rw [if_pos (List.contains_iff_mem.mpr known)]
    constructor
    · exact Or.inl
    · intro member
      rcases member with old | same
      · exact old
      · exact same ▸ known
  · rw [if_neg (fun found => known (List.contains_iff_mem.mp found)), List.mem_append,
      List.mem_singleton]

theorem mem_foldl_addNew_iff {literals seen : List String} {literal : String} :
    literal ∈ literals.foldl addNew seen ↔ literal ∈ seen ∨ literal ∈ literals := by
  induction literals generalizing seen with
  | nil => simp
  | cons first rest induction =>
      rw [List.foldl_cons, induction, mem_addNew_iff, List.mem_cons, or_assoc]

/-- Literals that have been seen are not added again. -/
theorem foldl_addNew_of_seen {literals seen : List String}
    (all : ∀ literal ∈ literals, literal ∈ seen) : literals.foldl addNew seen = seen := by
  induction literals with
  | nil => rfl
  | cons literal rest induction =>
      rw [List.forall_mem_cons] at all
      have known : addNew seen literal = seen := if_pos (List.contains_iff_mem.mpr all.1)
      rw [List.foldl_cons, known]
      exact induction all.2

theorem listedLiterals_twice (path : String) :
    listedLiterals (context.withAllow context.allow.twice) path = listedLiterals context path := by
  have descendants : (context.withAllow context.allow.twice).allow.descendants path =
      context.allow.descendants path ++ context.allow.descendants path :=
    AllowList.descendants_twice _ _
  unfold listedLiterals
  simp only [descendants, List.map_append, List.filter_append, List.foldl_append]
  apply foldl_addNew_of_seen
  intro literal member
  exact mem_foldl_addNew_iff.mpr (Or.inr member)

/-! ## Grown outcomes -/

/-- The second outcome is the first one, where the tree may have grown. -/
inductive Repeated : Contribution → Contribution → Prop
  | failed (problem : GenerationError) : Repeated (.error problem) (.error problem)
  | nothing : Repeated (.ok none) (.ok none)
  | found {tree grown : Tree} :
      Distinct tree → Grown False tree grown → Repeated (.ok (some tree)) (.ok (some grown))

theorem repeated_around {change : Tree → Tree} (around : Around change) {tree grown : Tree}
    (distinct : Distinct tree) (grows : Grown False tree grown) :
    Distinct (change tree) ∧ Grown False (change tree) (change grown) := by
  cases around with
  | listOf => exact ⟨distinct_markList true distinct, grows.element [] []⟩
  | nullable => exact ⟨distinct_asOptional distinct, grows.asOptional⟩
  | operations once =>
      have operations := distinct_operationMembers once
      exact ⟨distinct_merge operations distinct, (Grown.refl _).merge grows operations distinct⟩

theorem coupling_repeated : Coupling Repeated where
  nothing := Repeated.nothing
  leaf := fun expr => Repeated.found (Distinct.leaf expr) (Grown.refl _)
  around := by
    intro change first second around alike
    cases alike with
    | failed problem => exact Repeated.failed problem
    | nothing => exact Repeated.nothing
    | found distinct grows =>
        obtain ⟨distinct', grows'⟩ := repeated_around around distinct grows
        exact Repeated.found distinct' grows'
  single := by
    intro key first second alike
    cases alike with
    | failed problem => exact Repeated.failed problem
    | nothing => exact Repeated.nothing
    | found distinct grows =>
        refine Repeated.found ?_ (grows.member [] [] key)
        rw [single, distinct_object_iff]
        exact ⟨List.nodup_singleton key, by simpa using distinct⟩

/-- Computations that give grown trees fail together, or give grown trees one by one. -/
theorem repeated_mapM {α : Type} {run run' : α → Contribution} {inputs : List α}
    (each : ∀ input ∈ inputs, Repeated (run input) (run' input)) :
    (∃ problem, inputs.mapM run = .error problem ∧ inputs.mapM run' = .error problem) ∨
      ∃ found found', inputs.mapM run = .ok found ∧ inputs.mapM run' = .ok found' ∧
        List.Forall₂ (Grown False) (found.filterMap id) (found'.filterMap id) ∧
        ∀ tree ∈ found.filterMap id, Distinct tree := by
  induction inputs with
  | nil => exact Or.inr ⟨[], [], rfl, rfl, List.Forall₂.nil, by simp⟩
  | cons input rest induction =>
      rw [List.forall_mem_cons] at each
      rw [List.mapM_cons, List.mapM_cons]
      generalize run input = first, run' input = second at each
      cases each.1 with
      | failed problem => exact Or.inl ⟨problem, rfl, rfl⟩
      | nothing =>
          rcases induction each.2 with
            ⟨problem, failed, failed'⟩ | ⟨found, found', ended, ended', grows, distinct⟩
          · rw [failed, failed']
            exact Or.inl ⟨problem, rfl, rfl⟩
          · rw [ended, ended']
            exact Or.inr ⟨none :: found, none :: found', rfl, rfl, grows, distinct⟩
      | @found tree grown here grows' =>
          rcases induction each.2 with
            ⟨problem, failed, failed'⟩ | ⟨found, found', ended, ended', grows, distinct⟩
          · rw [failed, failed']
            exact Or.inl ⟨problem, rfl, rfl⟩
          · rw [ended, ended']
            refine Or.inr ⟨some tree :: found, some grown :: found', rfl, rfl, ?_, ?_⟩
            · exact List.Forall₂.cons grows' grows
            · exact List.forall_mem_cons.mpr ⟨here, distinct⟩

/-- The merge of what the inputs give grows where all of them are merged in once more. -/
theorem repeated_merge_twice {α : Type} {run run' : α → Contribution} {inputs : List α}
    (each : ∀ input ∈ inputs, Repeated (run input) (run' input)) :
    Repeated
      (((inputs.mapM run).map fun found => (found.filterMap id).foldl merge .emptyObject).map some)
      ((((inputs ++ inputs).mapM run').map fun found =>
        (found.filterMap id).foldl merge .emptyObject).map some) := by
  rw [List.mapM_append]
  rcases repeated_mapM each with
    ⟨problem, failed, failed'⟩ | ⟨found, found', ended, ended', grows, distinct⟩
  · rw [failed, failed']
    exact Repeated.failed problem
  · rw [ended, ended']
    have once := Grown.foldl_merge (Grown.refl _) grows distinct_emptyObject distinct
    have again : Grown False _ _ :=
      grown_foldl_merge_again distinct_emptyObject (Grown.forall_distinct grows distinct)
    have joined : Repeated (.ok (some ((found.filterMap id).foldl merge .emptyObject)))
        (.ok (some (((found' ++ found').filterMap id).foldl merge .emptyObject))) := by
      rw [List.filterMap_append, List.foldl_append]
      exact Repeated.found (distinct_foldl_merge distinct_emptyObject distinct) (once.trans again)
    exact joined

/-! ## Relations and entries -/

theorem agreesOn_twice : context.AgreesOn context.allow.twice fun _ => True :=
  Context.AgreesOn.everywhere (AllowList.isAllowed_twice context.allow)

theorem chosen_twice (path : String) (skip : Bool) :
    chosen (context.withAllow context.allow.twice) path skip =
      chosen context path skip ++ chosen context path skip := by
  have descendants : (context.withAllow context.allow.twice).allow.descendants path =
      context.allow.descendants path ++ context.allow.descendants path :=
    AllowList.descendants_twice _ _
  rw [chosen, descendants, List.filter_append]
  rfl

theorem repeated_nestedWithin (depth : Nat) (target path : String) (skip : Bool) :
    Repeated ((nestedWithin context depth target path skip).map some)
      ((nestedWithin (context.withAllow context.allow.twice) depth target path skip).map some) := by
  induction depth generalizing target path skip with
  | zero => exact Repeated.failed .endlessNesting
  | succ depth induction =>
      rw [nestedWithin_succ, nestedWithin_succ, chosen_twice]
      apply repeated_merge_twice
      intro descendant _
      apply coupling_repeated.walkBelow agreesOn_twice fun _ => listedLiterals_twice _
      · intro path _ target skip
        exact induction target path skip
      · trivial

theorem repeated_contribution (model : String) (entry : AllowEntry) :
    Repeated (entry.contribution context model)
      (entry.contribution (context.withAllow context.allow.twice) model) := by
  have bound : nestingBound (context.withAllow context.allow.twice) = nestingBound context := by
    have depth : (context.withAllow context.allow.twice).allow.depth = context.allow.depth :=
      AllowList.depth_twice _
    rw [nestingBound, depth]
    rfl
  unfold AllowEntry.contribution synthesize
  rw [bound]
  apply coupling_repeated.walkBelow agreesOn_twice fun _ => listedLiterals_twice _
  · intro path _ target skip
    exact repeated_nestedWithin _ target path skip
  · trivial

end Synthesis

theorem repeated_buildSchema (context : Context) (model : String) :
    Synthesis.Repeated ((buildSchema context model).map some)
      ((buildSchema (context.withAllow context.allow.twice) model).map some) := by
  have registered : (context.withAllow context.allow.twice).registry.hasModel model =
      context.registry.hasModel model := rfl
  unfold buildSchema
  rw [registered]
  cases context.registry.hasModel model with
  | false => exact Synthesis.Repeated.failed _
  | true =>
      apply Synthesis.repeated_merge_twice
      intro entry _
      exact Synthesis.repeated_contribution model entry

/-- A module is the same, or fails in the same way, when the whole allow list is written twice. -/
theorem generateModule_twice (context : Context) (model : String) :
    generateModule (context.withAllow context.allow.twice) model =
      generateModule context model := by
  unfold generateModule
  cases isBareIdentifier model with
  | false => simp only [Bool.false_eq_true, if_false]
  | true =>
      have alike := repeated_buildSchema context model
      simp only [if_true]
      generalize buildSchema context model = first,
        buildSchema (context.withAllow context.allow.twice) model = second at alike
      cases first with
      | error problem =>
          cases second with
          | error other =>
              cases alike
              rfl
          | ok schema => cases alike
      | ok schema =>
          cases second with
          | error problem => cases alike
          | ok grown =>
              cases alike with
              | found distinct grows =>
                  have printed := Tree.render_eq_of_grown distinct grows
                  simp only [Except.map]
                  rw [printed]

end ScopedSchema
