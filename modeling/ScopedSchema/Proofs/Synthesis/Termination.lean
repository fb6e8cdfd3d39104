import Mathlib.Data.Finset.Card
import Mathlib.Data.Finset.Image
import ScopedSchema.Proofs.Module
import ScopedSchema.Proofs.Synthesis.Request

/-!
# When synthesis comes to an end

Requests away from the empty path stand at longer and longer allowed paths, so they come to an end.
A relation without a name adds nothing to the empty path: an entry that begins with two empty
segments is then taken in again and again, each time for the model that this relation leads to.
Synthesis has no end exactly if there is such an entry and these models never run out.
-/

namespace ScopedSchema

namespace Synthesis

open Outcome

/-- The relation without a name that a walk finds at the empty path. -/
def unnamedRelation? (context : Context) (model : String) : Option Field :=
  (context.registry.field? (scopeAt context model "") "").filter fun field =>
    !context.isLeafType field.typeTag

/-- The model whose entries the relation without a name takes in. -/
def unnamedTarget? (context : Context) (model : String) : Option String :=
  ((unnamedRelation? context model).bind fun field => relationRequest? context field "").map
    Request.target

/-- The model that so many relations without a name lead to, one after another. -/
def unnamedRun? (context : Context) : Nat → String → Option String
  | 0, model => some model
  | count + 1, model => (unnamedTarget? context model).bind (unnamedRun? context count)

/-- Over such segments a walk comes back to the empty path, as long as relations without a name lead
on. -/
def Returns (context : Context) (keys : List String) : Prop :=
  ∃ rest, keys = "" :: rest ∧ (allowedOperations context "" ≠ [] ∨ ∀ key ∈ rest, key = "")

def Endless (context : Context) (model : String) : Prop :=
  (∃ entry ∈ context.allow.entries, ∃ rest, entry.keys = "" :: rest ∧ Returns context rest) ∧
    ∀ count, (unnamedRun? context count model).isSome = true

variable {context : Context}

/-! ## Runs over models -/

theorem unnamedRun?_add (first second : Nat) (model : String) :
    unnamedRun? context (first + second) model =
      (unnamedRun? context first model).bind (unnamedRun? context second) := by
  induction first generalizing model with
  | zero => rw [Nat.zero_add, unnamedRun?, Option.bind_some]
  | succ first induction =>
      rw [Nat.succ_add, unnamedRun?, unnamedRun?, Option.bind_assoc]
      exact congrArg _ (funext induction)

theorem unnamedRun?_isSome_of_le {first second : Nat} {model : String} (shorter : first ≤ second)
    (long : (unnamedRun? context second model).isSome = true) :
    (unnamedRun? context first model).isSome = true := by
  rw [← Nat.add_sub_of_le shorter, unnamedRun?_add] at long
  exact Option.isSome_of_isSome_bind long

theorem unnamedRun?_isSome_of_eq_some {count : Nat} {model next : String}
    (reached : unnamedRun? context count model = some next)
    (endless : ∀ further, (unnamedRun? context further next).isSome = true) (further : Nat) :
    (unnamedRun? context further model).isSome = true := by
  apply unnamedRun?_isSome_of_le (Nat.le_add_left further count)
  rw [unnamedRun?_add, reached]
  exact endless further

/-- A run that comes back to where it began never stops. -/
theorem unnamedRun?_isSome_of_period {period : Nat} {model : String} (positive : 0 < period)
    (back : unnamedRun? context period model = some model) (count : Nat) :
    (unnamedRun? context count model).isSome = true := by
  have rounds : ∀ number, unnamedRun? context (number * period) model = some model := by
    intro number
    induction number with
    | zero => rw [Nat.zero_mul, unnamedRun?]
    | succ number induction =>
        rw [Nat.succ_mul, unnamedRun?_add, induction]
        exact back
  apply unnamedRun?_isSome_of_le (Nat.le_mul_of_pos_right count positive)
  rw [rounds count]
  rfl

theorem unnamedRun?_isSome_of_repeat {first second : Nat} {model next : String}
    (earlier : first < second) (here : unnamedRun? context first model = some next)
    (again : unnamedRun? context second model = some next) (count : Nat) :
    (unnamedRun? context count model).isSome = true := by
  have back : unnamedRun? context (second - first) next = some next := by
    rw [← Nat.add_sub_of_le (Nat.le_of_lt earlier), unnamedRun?_add, here] at again
    exact again
  exact unnamedRun?_isSome_of_eq_some here
    (unnamedRun?_isSome_of_period (Nat.sub_pos_of_lt earlier) back) count

theorem hasModel_of_relationRequest? {field : Field} {path : String} {request : Request}
    (asked : relationRequest? context field path = some request) :
    context.registry.hasModel request.target = true := by
  unfold relationRequest? at asked
  rcases Option.bind_eq_some_iff.mp asked with ⟨target, resolved, asked⟩
  have registered := Context.hasModel_of_resolveModel? resolved
  by_cases plain : (allowedOperations context path).isEmpty = true
  · rw [if_pos plain] at asked
    rw [← Option.some.inj asked]
    exact registered
  · rw [if_neg plain] at asked
    rcases Option.map_eq_some_iff.mp asked with ⟨schemas, _, same⟩
    rw [← same]
    exact registered

theorem unnamedTarget?_eq_some_iff {model target : String} :
    unnamedTarget? context model = some target ↔
      ∃ field request, unnamedRelation? context model = some field ∧
        relationRequest? context field "" = some request ∧ request.target = target := by
  unfold unnamedTarget?
  cases unnamedRelation? context model with
  | none => simp
  | some field => simp

theorem hasModel_of_unnamedTarget? {model target : String}
    (next : unnamedTarget? context model = some target) :
    context.registry.hasModel target = true := by
  rcases unnamedTarget?_eq_some_iff.mp next with ⟨field, request, _, asked, same⟩
  rw [← same]
  exact hasModel_of_relationRequest? asked

theorem hasModel_of_unnamedRun? {count : Nat} {model next : String}
    (registered : context.registry.hasModel model = true)
    (reached : unnamedRun? context count model = some next) :
    context.registry.hasModel next = true := by
  induction count generalizing model with
  | zero =>
      rw [unnamedRun?] at reached
      rw [← Option.some.inj reached]
      exact registered
  | succ count induction =>
      rw [unnamedRun?] at reached
      rcases Option.bind_eq_some_iff.mp reached with ⟨target, here, later⟩
      exact induction (hasModel_of_unnamedTarget? here) later

theorem hasModel_of_unnamedRun?_succ {count : Nat} {model next : String}
    (reached : unnamedRun? context (count + 1) model = some next) :
    context.registry.hasModel next = true := by
  rw [unnamedRun?] at reached
  rcases Option.bind_eq_some_iff.mp reached with ⟨target, here, later⟩
  exact hasModel_of_unnamedRun? (hasModel_of_unnamedTarget? here) later

/-- A run over more models than there are comes to one of them twice. -/
theorem unnamedRun?_isSome_of_long {model : String}
    (registered : context.registry.hasModel model = true)
    (long : (unnamedRun? context context.registry.models.size model).isSome = true) (count : Nat) :
    (unnamedRun? context count model).isSome = true := by
  let names := (context.registry.models.names.toFinset).image some
  let places := Finset.range (context.registry.models.size + 1)
  have within : ∀ place ∈ places, ∃ next, unnamedRun? context place model = some next := by
    intro place member
    have bound := Finset.mem_range.mp member
    exact Option.isSome_iff_exists.mp (unnamedRun?_isSome_of_le (by omega) long)
  have inside : Set.MapsTo (fun count => unnamedRun? context count model) places names := by
    intro place member
    rcases within place member with ⟨next, reached⟩
    rcases Option.isSome_iff_exists.mp (hasModel_of_unnamedRun? registered reached) with
      ⟨_, found⟩
    show unnamedRun? context place model ∈ _
    rw [reached]
    exact Finset.mem_image_of_mem some (List.mem_toFinset.mpr (Table.mem_names_of_find? found))
  have few : names.card < places.card := by
    have images := Finset.card_image_le (s := context.registry.models.names.toFinset)
      (f := some)
    have listed := List.toFinset_card_le context.registry.models.names
    rw [Table.names, List.length_map] at listed
    rw [Finset.card_range]
    show names.card < context.registry.models.entries.length + 1
    exact Nat.lt_succ_of_le (Nat.le_trans images listed)
  rcases Finset.exists_ne_map_eq_of_card_lt_of_maps_to few inside with
    ⟨first, early, second, late, different, same⟩
  rcases within first early with ⟨next, reached⟩
  have again : unnamedRun? context second model = some next := same.symm.trans reached
  rcases Nat.lt_or_gt_of_ne different with before | behind
  · exact unnamedRun?_isSome_of_repeat before reached again count
  · exact unnamedRun?_isSome_of_repeat behind again reached count

/-! ## Requests at the empty path -/

theorem scopeAt_scopeAt (model path : String) :
    scopeAt context (scopeAt context model path) path = scopeAt context model path := by
  unfold scopeAt
  cases context.modelOfPath? path with
  | none => rfl
  | some name => rfl

theorem unnamedRelation?_scopeAt (model : String) :
    unnamedRelation? context (scopeAt context model "") = unnamedRelation? context model := by
  rw [unnamedRelation?, scopeAt_scopeAt, ← unnamedRelation?]

section Unnamed

variable {segment : String} {rest : List String} {previous : Option String} {model : String}
  (allowed : context.isAllowed "" = true) (unnamed : Path.keyOf segment = "")

include allowed unnamed

theorem request?_of_no_unnamedRelation (none : unnamedRelation? context model = none) :
    request? context (segment :: rest) previous model "" =
      request? context rest (some segment) (scopeAt context model "") "" := by
  have plain : Operator.ofKey? "" = Option.none := by decide
  rw [request?, unnamed]
  simp only [Path.child_empty, allowed, if_true, plain]
  unfold unnamedRelation? at none
  cases found : context.registry.field? (scopeAt context model "") "" with
  | none => rfl
  | some field =>
      rw [found] at none
      have leafType : context.isLeafType field.typeTag = true := by simpa using none
      simp only [leafType, if_true]

theorem request?_of_unnamedRelation {field : Field}
    (relation : unnamedRelation? context model = some field) :
    request? context (segment :: rest) previous model "" =
      if rest.isEmpty || !(allowedOperations context "").isEmpty then
        relationRequest? context field ""
      else (context.resolveModel? field.typeTag).bind fun target =>
        request? context rest (some segment) target "" := by
  have plain : Operator.ofKey? "" = none := by decide
  rcases Option.filter_eq_some_iff.mp relation with ⟨found, follows⟩
  have leafType : context.isLeafType field.typeTag = false := by simpa using follows
  rw [request?, unnamed]
  simp only [Path.child_empty, allowed, if_true, plain, found, leafType, Bool.false_eq_true,
    if_false]

/-- A segment without a name stays with the model, asks for the entries of the next model or goes
on to that model. -/
theorem request?_unnamed {request : Request}
    (asked : request? context (segment :: rest) previous model "" = some request) :
    (unnamedRelation? context model = none ∧
      request? context rest (some segment) (scopeAt context model "") "" = some request) ∨
    ((rest = [] ∨ allowedOperations context "" ≠ []) ∧
      unnamedTarget? context model = some request.target) ∨
    (allowedOperations context "" = [] ∧ ∃ next, unnamedTarget? context model = some next ∧
      request? context rest (some segment) next "" = some request) := by
  cases relation : unnamedRelation? context model with
  | none =>
      rw [request?_of_no_unnamedRelation allowed unnamed relation] at asked
      exact Or.inl ⟨rfl, asked⟩
  | some field =>
      rw [request?_of_unnamedRelation allowed unnamed relation] at asked
      by_cases stops : (rest.isEmpty || !(allowedOperations context "").isEmpty) = true
      · rw [if_pos stops] at asked
        refine Or.inr (Or.inl ⟨by simpa using stops, ?_⟩)
        exact unnamedTarget?_eq_some_iff.mpr ⟨field, request, relation, asked, rfl⟩
      · rw [if_neg stops] at asked
        have none : allowedOperations context "" = [] := by
          by_contra some
          exact stops (by simp [some])
        rcases Option.bind_eq_some_iff.mp asked with ⟨next, resolved, asked⟩
        refine Or.inr (Or.inr ⟨none, next, ?_, asked⟩)
        refine unnamedTarget?_eq_some_iff.mpr ⟨field, ⟨next, "", false⟩, relation, ?_, rfl⟩
        rw [relationRequest?_of_no_operations none, resolved]
        rfl

theorem exists_request?_of_stops {target : String}
    (next : unnamedTarget? context model = some target)
    (stops : rest = [] ∨ allowedOperations context "" ≠ []) :
    ∃ request, request? context (segment :: rest) previous model "" = some request ∧
      request.path = "" ∧ request.target = target := by
  rcases unnamedTarget?_eq_some_iff.mp next with ⟨field, request, relation, asked, reached⟩
  refine ⟨request, ?_, path_of_relationRequest? asked, reached⟩
  have last : (rest.isEmpty || !(allowedOperations context "").isEmpty) = true := by
    simpa using stops
  rw [request?_of_unnamedRelation allowed unnamed relation, if_pos last]
  exact asked

theorem request?_of_goes_on {target : String}
    (next : unnamedTarget? context model = some target) (more : rest ≠ [])
    (none : allowedOperations context "" = []) :
    request? context (segment :: rest) previous model "" =
      request? context rest (some segment) target "" := by
  rcases unnamedTarget?_eq_some_iff.mp next with ⟨field, request, relation, asked, reached⟩
  rw [relationRequest?_of_no_operations none] at asked
  rcases Option.map_eq_some_iff.mp asked with ⟨other, resolved, same⟩
  have here : other = target := by rw [← reached, ← same]
  rw [request?_of_unnamedRelation allowed unnamed relation, if_neg (by simp [more, none]),
    resolved, here]
  rfl

end Unnamed

/-- Only relations without a name lead back to the empty path. -/
theorem unnamedRun?_of_request? {segments : List String} {previous : Option String}
    {model : String} {request : Request}
    (asked : request? context segments previous model "" = some request)
    (root : request.path = "") :
    Returns context (segments.map Path.keyOf) ∧
      ∃ count, unnamedRun? context (count + 1) model = some request.target := by
  induction segments generalizing previous model with
  | nil => cases asked
  | cons segment rest induction =>
      have unnamed : Path.keyOf segment = "" := by
        by_contra named
        exact request?_path_ne_empty named asked root
      have allowed := (request?_cons asked).1
      rw [unnamed, Path.child_empty] at allowed
      rw [List.map_cons, unnamed]
      rcases request?_unnamed allowed unnamed asked with
        ⟨none, asked⟩ | ⟨stops, next⟩ | ⟨none, next, leads, asked⟩
      · -- A walk that stays with its model finds no relation there at any further segment.
        rcases (induction asked).2 with ⟨count, reached⟩
        rw [unnamedRun?, unnamedTarget?, unnamedRelation?_scopeAt, none] at reached
        cases reached
      · refine ⟨⟨_, rfl, ?_⟩, 0, ?_⟩
        · rcases stops with last | operations
          · rw [last]
            exact Or.inr (by simp)
          · exact Or.inl operations
        · rw [unnamedRun?, next]
          rfl
      · rcases induction asked with ⟨⟨later, split, returns⟩, count, reached⟩
        refine ⟨⟨_, rfl, ?_⟩, count + 1, ?_⟩
        · rw [split]
          exact Or.inr (List.forall_mem_cons.mpr
            ⟨rfl, returns.resolve_left fun some => some none⟩)
        · rw [unnamedRun?, leads]
          exact reached

/-- As long as relations without a name lead on, a walk that returns asks for entries at the empty
path. -/
theorem exists_request?_of_returns {segments : List String} {previous : Option String}
    {model : String} (allowed : context.isAllowed "" = true)
    (returns : Returns context (segments.map Path.keyOf))
    (endless : ∀ count, (unnamedRun? context count model).isSome = true) :
    ∃ request, request? context segments previous model "" = some request ∧ request.path = "" ∧
      ∀ count, (unnamedRun? context count request.target).isSome = true := by
  induction segments generalizing previous model with
  | nil =>
      rcases returns with ⟨rest, empty, _⟩
      cases empty
  | cons segment rest induction =>
      rcases returns with ⟨later, split, returns⟩
      rcases List.cons.inj split with ⟨unnamed, same⟩
      rcases Option.isSome_iff_exists.mp (endless 1) with ⟨last, first⟩
      rcases Option.bind_eq_some_iff.mp first with ⟨target, next, _⟩
      have further : ∀ count, (unnamedRun? context count target).isSome = true := by
        intro count
        have longer := endless (count + 1)
        rw [unnamedRun?, next] at longer
        exact longer
      by_cases stops : rest = [] ∨ allowedOperations context "" ≠ []
      · rcases exists_request?_of_stops allowed unnamed next stops with
          ⟨request, asked, root, reached⟩
        refine ⟨request, asked, root, ?_⟩
        rw [reached]
        exact further
      · rcases not_or.mp stops with ⟨more, operations⟩
        have none := not_not.mp operations
        rw [request?_of_goes_on allowed unnamed next more none]
        refine induction ?_ further
        rcases List.exists_cons_of_ne_nil more with ⟨following, others, split'⟩
        rw [split', List.map_cons] at same ⊢
        have all := returns.resolve_left fun some => some none
        rw [← same] at all
        exact ⟨_, congrArg₂ _ (all _ List.mem_cons_self) rfl,
          Or.inr fun key member => all key (List.mem_cons_of_mem _ member)⟩

/-! ## Nesting ends -/

/-- Away from the empty path, depth runs out only after the allow list does. -/
theorem nested_ends_of_longer {depth : Nat} {target path : String} {skip : Bool}
    (more : path ≠ "") (allowed : context.isAllowed path = true)
    (deep : context.allow.depth < depth + (Path.segments path).length) :
    Ends (nestedWithin context depth target path skip) := by
  induction depth generalizing target path skip with
  | zero =>
      have bound := AllowList.length_segments_le_depth_of_isAllowed allowed
      omega
  | succ depth induction =>
      rw [nestedWithin_succ_ends_iff]
      intro descendant _ request asked
      rcases length_lt_of_request? more asked with ⟨filled, longer⟩
      exact induction filled (isAllowed_of_request? asked) (by omega)

/-- What a walk from the empty path asks for elsewhere is answered. -/
theorem answered_of_root {depth : Nat} {segments : List String} {previous : Option String}
    {model : String} (deep : context.allow.depth ≤ depth)
    (root : ∀ request, request? context segments previous model "" = some request →
      request.path = "" →
        Ends (nestedWithin context depth request.target "" request.skipOperations)) :
    Answered (nestedWithin context depth) (request? context segments previous model "") := by
  intro request asked
  by_cases empty : request.path = ""
  · rw [empty]
    exact root request asked empty
  · have positive := Path.length_segments_pos request.path
    exact nested_ends_of_longer empty (isAllowed_of_request? asked) (by omega)

theorem keys_of_mem_chosen {descendant : Descendant} {skip : Bool}
    (member : descendant ∈ chosen context "" skip) :
    descendant.entry ∈ context.allow.entries ∧
      descendant.entry.keys = "" :: descendant.remaining.map Path.keyOf := by
  have listed := (List.mem_filter.mp member).1
  rcases AllowList.keys_of_mem_descendants listed with ⟨inside, split, _⟩
  rw [AllowList.map_keyOf_remaining listed]
  exact ⟨inside, split⟩

theorem nested_ends_of_no_return {depth : Nat} {target : String} {skip : Bool}
    (deep : context.allow.depth < depth)
    (none : ∀ entry ∈ context.allow.entries, ∀ rest, entry.keys = "" :: rest →
      ¬ Returns context rest) :
    Ends (nestedWithin context depth target "" skip) := by
  cases depth with
  | zero => omega
  | succ depth =>
      rw [nestedWithin_succ_ends_iff]
      intro descendant member
      apply answered_of_root (by omega)
      intro request asked root
      rcases keys_of_mem_chosen member with ⟨inside, split⟩
      exact absurd (unnamedRun?_of_request? asked root).1 (none _ inside _ split)

theorem nested_ends_of_run {rest : Nat} {target : String} {skip : Bool}
    (stops : unnamedRun? context rest target = none) :
    Ends (nestedWithin context (context.allow.depth + 1 + rest) target "" skip) := by
  induction rest generalizing target skip with
  | zero => cases stops
  | succ rest induction =>
      rw [← Nat.add_assoc, nestedWithin_succ_ends_iff]
      intro descendant _
      apply answered_of_root (by omega)
      intro request asked root
      rcases (unnamedRun?_of_request? asked root).2 with ⟨count, reached⟩
      apply induction
      by_contra some
      have long : (unnamedRun? context (count + 1 + rest) target).isSome = true := by
        rw [unnamedRun?_add, reached]
        exact Option.isSome_iff_ne_none.mpr some
      have short := unnamedRun?_isSome_of_le (show rest + 1 ≤ count + 1 + rest by omega) long
      rw [stops] at short
      cases short

/-! ## Nesting without end -/

theorem mem_chosen_of_returns {entry : AllowEntry} {rest : List String}
    (member : entry ∈ context.allow.entries) (split : entry.keys = "" :: rest)
    (returns : Returns context rest) (skip : Bool) :
    ⟨entry, entry.segments.drop 1, entry.keys.drop 1⟩ ∈ chosen context "" skip := by
  rcases returns with ⟨later, empty, _⟩
  have below : entry.isBelow (Path.keys "") = true :=
    AllowEntry.isBelow_iff.mpr ⟨"", later, by rw [split, empty]; rfl⟩
  have first : entry.keys.drop 1 = "" :: later := by
    rw [split, empty]
    rfl
  have plain : RelationOperation.isName "" = false := by decide
  rw [chosen, List.mem_filter]
  refine ⟨AllowList.mem_descendants_iff.mpr ⟨entry, member, below, rfl⟩, ?_⟩
  simp only [first]
  simp [plain]

/-- Whatever the depth, an entry that returns is taken in once more. -/
theorem not_nested_ends_of_returns {entry : AllowEntry} {rest : List String} {depth : Nat}
    {target : String} {skip : Bool} (member : entry ∈ context.allow.entries)
    (split : entry.keys = "" :: rest) (returns : Returns context rest)
    (endless : ∀ count, (unnamedRun? context count target).isSome = true) :
    ¬ Ends (nestedWithin context depth target "" skip) := by
  induction depth generalizing target skip with
  | zero => exact not_ends_error _
  | succ depth induction =>
      rw [nestedWithin_succ_ends_iff]
      intro answered
      have allowed : context.isAllowed "" = true :=
        AllowList.isAllowed_iff.mpr ⟨entry, member, rest, split.symm⟩
      have keys : (entry.segments.drop 1).map Path.keyOf = rest := by
        rw [AllowEntry.map_keyOf_drop_segments, split]
        rfl
      have below := mem_chosen_of_returns member split returns skip
      rw [← keys] at returns
      rcases exists_request?_of_returns allowed returns endless with
        ⟨request, asked, root, further⟩
      have ended := answered _ below request asked
      rw [root] at ended
      exact induction further ended

theorem answered_of_not_endless {model : String} (finite : ¬ Endless context model)
    (segments : List String) :
    Answered (nestedWithin context (nestingBound context))
      (request? context segments none model "") := by
  unfold nestingBound
  apply answered_of_root (by omega)
  intro request asked root
  by_cases returns : ∃ entry ∈ context.allow.entries, ∃ rest,
      entry.keys = "" :: rest ∧ Returns context rest
  · rcases (unnamedRun?_of_request? asked root).2 with ⟨count, reached⟩
    have registered := hasModel_of_unnamedRun?_succ reached
    have stops : unnamedRun? context context.registry.models.size request.target = none := by
      by_contra some
      apply finite
      refine ⟨returns, unnamedRun?_isSome_of_eq_some reached ?_⟩
      exact unnamedRun?_isSome_of_long registered (Option.isSome_iff_ne_none.mpr some)
    have same : context.registry.models.size + context.allow.depth + 1 =
        context.allow.depth + 1 + context.registry.models.size := by omega
    rw [same]
    exact nested_ends_of_run stops
  · apply nested_ends_of_no_return (by omega)
    intro entry inside rest split back
    exact returns ⟨entry, inside, rest, split, back⟩

theorem not_walk_ends_of_endless {model : String} (endless : Endless context model) (depth : Nat) :
    ∃ entry ∈ context.allow.entries,
      ¬ Ends (walk context (nestedWithin context depth) entry.change? entry.segments none model
        "") := by
  rcases endless with ⟨⟨entry, member, rest, split, returns⟩, endless⟩
  refine ⟨entry, member, ?_⟩
  rw [walk_ends_iff]
  intro answered
  have allowed : context.isAllowed "" = true :=
    AllowList.isAllowed_iff.mpr ⟨entry, member, rest, split.symm⟩
  have again : Returns context (entry.segments.map Path.keyOf) := by
    rcases returns with ⟨later, empty, returns⟩
    refine ⟨rest, split, ?_⟩
    rw [empty]
    exact returns.imp_right fun all => List.forall_mem_cons.mpr ⟨rfl, all⟩
  rcases exists_request?_of_returns allowed again endless with ⟨request, asked, root, further⟩
  have ended := answered request asked
  rw [root] at ended
  exact not_nested_ends_of_returns member split returns further ended

end Synthesis

/-- Some depth of nesting is enough for the whole allow list, and the schema of a registered model
is built, exactly if the entries do not lead back to the empty path for ever. -/
theorem synthesis_ends_iff_not_endless (context : Context) (model : String) :
    ((∃ depth, ∀ entry ∈ context.allow.entries,
        Outcome.Ends (Synthesis.walk context (Synthesis.nestedWithin context depth) entry.change?
          entry.segments none model "")) ↔
      ¬ Synthesis.Endless context model) ∧
    (Outcome.Ends (buildSchema context model) ↔
      context.registry.hasModel model = true ∧ ¬ Synthesis.Endless context model) := by
  have within : ¬ Synthesis.Endless context model → ∀ entry ∈ context.allow.entries,
      Outcome.Ends (entry.contribution context model) := by
    intro finite entry _
    exact Synthesis.walk_ends_iff.mpr (Synthesis.answered_of_not_endless finite entry.segments)
  constructor
  · constructor
    · intro ends endless
      rcases ends with ⟨depth, ends⟩
      rcases Synthesis.not_walk_ends_of_endless endless depth with ⟨entry, member, never⟩
      exact never (ends entry member)
    · intro finite
      exact ⟨Synthesis.nestingBound context, within finite⟩
  · constructor
    · intro built
      rcases built with ⟨schema, built⟩
      rcases buildSchema_eq_ok_iff.mp built with ⟨registered, ends, _⟩
      refine ⟨registered, ?_⟩
      intro endless
      rcases Synthesis.not_walk_ends_of_endless endless (Synthesis.nestingBound context) with
        ⟨entry, member, never⟩
      exact never (ends entry member)
    · intro finite
      exact ⟨_, buildSchema_eq_ok_iff.mpr ⟨finite.1, within finite.2, rfl⟩⟩

/-- Users whose relation without a name leads to users. -/
def unnamedLoop : Context where
  registry :=
    { models := ⟨[("user", ⟨⟨[("", { typeTag := "user" })], by decide⟩⟩)], by decide⟩
      enums := Table.empty }
  synonyms := Synonyms.empty
  allow := AllowList.ofPaths ["."]

theorem unnamedLoop_endless : Synthesis.Endless unnamedLoop "user" := by
  have next : Synthesis.unnamedTarget? unnamedLoop "user" = some "user" := by rfl
  refine ⟨⟨.bare ".", List.mem_singleton_self _, [""], rfl, [], rfl, Or.inr (by simp)⟩, ?_⟩
  exact Synthesis.unnamedRun?_isSome_of_period Nat.one_pos (by
    rw [Synthesis.unnamedRun?, next]
    rfl)

theorem no_depth_ends_unnamedLoop :
    unnamedLoop.registry.hasModel "user" = true ∧
      ¬ ∃ depth, ∀ entry ∈ unnamedLoop.allow.entries,
        Outcome.Ends (Synthesis.walk unnamedLoop (Synthesis.nestedWithin unnamedLoop depth)
          entry.change? entry.segments none "user" "") := by
  refine ⟨by rfl, ?_⟩
  intro ends
  rcases ends with ⟨depth, ends⟩
  rcases Synthesis.not_walk_ends_of_endless unnamedLoop_endless depth with ⟨entry, member, never⟩
  exact never (ends entry member)

end ScopedSchema
