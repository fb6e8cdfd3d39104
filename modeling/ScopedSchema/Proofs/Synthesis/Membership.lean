import ScopedSchema.Proofs.Synthesis.Fruitless
import ScopedSchema.Proofs.Synthesis.Repetition
import ScopedSchema.Proofs.Synthesis.Sections

/-!
# Membership operators

A membership operator behind a field is an array of the values that the entries list below its path,
or else of any value of the field. Which values these are is said by the allow list alone, and where
a walk arrives is said by the keys of its segments. So all walks through the operator find the same
leaf there, whatever follows on it, and only the list markers on the way show in the tree around it.
-/

namespace ScopedSchema

/-! ## Listed values -/

/-- The value that the entry lists strictly below some keys: its further keys that are not empty,
between dots, if there are any. -/
def AllowEntry.valueBelow? (keys : List String) (entry : AllowEntry) : Option String :=
  if keys <+: entry.keys ∧ keys ≠ entry.keys then
    let further := (entry.keys.drop keys.length).filter fun key => key ≠ ""
    (some (".".intercalate further)).filter fun value => value ≠ ""
  else none

/-- The values that the entries list strictly below a path, in the order in which they first
occur. -/
def AllowList.valuesBelow (list : AllowList) (path : String) : List String :=
  (list.entries.filterMap (AllowEntry.valueBelow? (Path.keys path))).eraseDups

namespace Synthesis

open ScopedSchema.Tree

variable {context : Context}

theorem foldl_addNew (literals known : List String) :
    literals.foldl addNew known = known ++ (literals.removeAll known).eraseDups := by
  induction literals generalizing known with
  | nil => simp
  | cons literal rest induction =>
      have added : addNew known literal = known ++ [literal].filter fun name => name ∉ known := by
        unfold addNew
        by_cases old : literal ∈ known <;> simp [old]
      rw [List.foldl_cons, induction, append_eraseDups_cons, added]

theorem nodup_foldl_addNew (literals : List String) {known : List String} (once : known.Nodup) :
    (literals.foldl addNew known).Nodup := by
  induction literals generalizing known with
  | nil => exact once
  | cons literal rest induction =>
      apply induction
      unfold addNew
      split
      · exact once
      · rename_i fresh
        rw [List.contains_iff_mem] at fresh
        exact once.append (List.nodup_singleton literal) (by simpa using fresh)

/-- The values of the entries, each looked at for itself. -/
theorem valuesBelow_eq_listed (list : AllowList) (path : String) :
    list.entries.filterMap (AllowEntry.valueBelow? (Path.keys path)) =
      (((list.descendants path).map fun descendant =>
        ".".intercalate (descendant.remainingKeys.filter fun key => !key.isEmpty)).filter
          fun literal => !literal.isEmpty) := by
  rw [AllowList.descendants, List.map_map, ← List.filterMap_eq_map, List.filterMap_filter,
    List.filter_filterMap]
  apply List.filterMap_congr
  intro entry _
  have filled : ∀ key : String, decide (key ≠ "") = !key.isEmpty := by
    intro key
    by_cases empty : key = "" <;> simp [empty]
  simp only [Function.comp_apply, AllowEntry.isBelow_eq_decide, AllowEntry.valueBelow?, filled]
  by_cases below : Path.keys path <+: entry.keys ∧ Path.keys path ≠ entry.keys
  · rw [if_pos below, if_pos (decide_eq_true below)]
  · rw [if_neg below, if_neg (by simpa using below), Option.filter_none]

theorem listedLiterals_eq_foldl (context : Context) (path : String) :
    listedLiterals context path =
      (context.allow.entries.filterMap
        (AllowEntry.valueBelow? (Path.keys path))).foldl addNew [] := by
  rw [valuesBelow_eq_listed]
  rfl

theorem listedLiterals_eq_valuesBelow (context : Context) (path : String) :
    listedLiterals context path = context.allow.valuesBelow path := by
  rw [listedLiterals_eq_foldl, foldl_addNew, List.removeAll_nil]
  rfl

theorem nodup_valuesBelow (list : AllowList) (path : String) : (list.valuesBelow path).Nodup := by
  have once := nodup_foldl_addNew
    (list.entries.filterMap (AllowEntry.valueBelow? (Path.keys path))) List.nodup_nil
  rwa [foldl_addNew, List.removeAll_nil] at once

/-! ## Segments on the way -/

/-- What a walk knows where it has arrived: the segment before, unless an operator came last, the
model that is handed on, and the path. -/
structure Arrival where
  previous : Option String
  model : String
  path : String

namespace Arrival

/-- The path of the next segment. -/
def below (place : Arrival) (segment : String) : String :=
  Path.child place.path (Path.keyOf segment)

def scope (context : Context) (place : Arrival) : String := scopeAt context place.model place.path

/-- The same but for the list markers of the segment before. -/
def Alike (place place' : Arrival) : Prop :=
  place'.previous.map Path.keyOf = place.previous.map Path.keyOf ∧ place'.model = place.model ∧
    place'.path = place.path

end Arrival

/-- A walk that goes over these segments arrives there, if more segments follow. -/
inductive Arrives (context : Context) : List String → Arrival → Arrival → Prop
  | here (place : Arrival) : Arrives context [] place place
  | logical {segment : String} {rest : List String} {place goal : Arrival} :
      context.isAllowed (place.below segment) = true →
      Operator.ofKey? (Path.keyOf segment) = some .logical →
      Arrives context rest ⟨none, place.scope context, place.below segment⟩ goal →
      Arrives context (segment :: rest) place goal
  | quantifier {segment : String} {rest : List String} {place goal : Arrival} :
      context.isAllowed (place.below segment) = true →
      Operator.ofKey? (Path.keyOf segment) = some .quantifier →
      Arrives context rest
        ⟨none, quantified context (place.scope context) place.previous, place.below segment⟩ goal →
      Arrives context (segment :: rest) place goal
  | plain {segment next : String} {rest : List String} {place goal : Arrival} :
      context.isAllowed (place.below segment) = true →
      Operator.ofKey? (Path.keyOf segment) = none →
      followed? context (place.scope context) (Path.keyOf segment) = some next →
      (∀ field, context.registry.field? (place.scope context) (Path.keyOf segment) = some field →
        context.isLeafType field.typeTag = false →
        allowedOperations context (place.below segment) = []) →
      Arrives context rest ⟨some segment, next, place.below segment⟩ goal →
      Arrives context (segment :: rest) place goal

/-- What the segments put around the tree of those behind them. -/
def around (segments : List String) (tree : Tree) : Tree :=
  segments.foldr (fun segment below =>
    match Operator.ofKey? (Path.keyOf segment) with
    | some .logical => .single (Path.keyOf segment) (.listOf below)
    | some _ => .single (Path.keyOf segment) below
    | none => .single (Path.keyOf segment) (markList (Path.endsInMarker segment) below)) tree

theorem parentField?_congr {scope : String} {previous previous' : Option String}
    (same : previous'.map Path.keyOf = previous.map Path.keyOf) :
    parentField? context scope previous' = parentField? context scope previous := by
  have keyed : ∀ segment : Option String, parentField? context scope segment =
      (segment.map Path.keyOf).bind fun key => context.registry.field? scope key := by
    intro segment
    cases segment <;> rfl
  rw [keyed, keyed, same]

namespace Arrival

variable {place place' : Arrival}

theorem Alike.scope_eq (alike : place.Alike place') : place'.scope context = place.scope context := by
  obtain ⟨_, model, path⟩ := alike
  rw [scope, scope, model, path]

theorem Alike.below_eq (alike : place.Alike place') {segment segment' : String}
    (key : Path.keyOf segment' = Path.keyOf segment) : place'.below segment' = place.below segment := by
  rw [below, below, alike.2.2, key]

theorem Alike.parentField?_eq (alike : place.Alike place') :
    parentField? context (place'.scope context) place'.previous =
      parentField? context (place.scope context) place.previous := by
  rw [alike.scope_eq, parentField?_congr alike.1]

end Arrival

/-- Where a walk arrives is said by the keys of the segments. -/
theorem Arrives.of_keys {way way' : List String} {start start' goal : Arrival}
    (arrives : Arrives context way start goal) (alike : start.Alike start')
    (keys : way'.map Path.keyOf = way.map Path.keyOf) :
    ∃ goal', Arrives context way' start' goal' ∧ goal.Alike goal' := by
  induction arrives generalizing way' start' with
  | here place =>
      rw [List.map_nil, List.map_eq_nil_iff] at keys
      rw [keys]
      exact ⟨start', Arrives.here start', alike⟩
  | @logical segment rest place goal allowed kind _ induction =>
      obtain ⟨segment', rest', rfl, key, later⟩ := List.map_eq_cons_iff.mp keys
      have same := alike.below_eq key
      have behind : Arrival.Alike ⟨none, place.scope context, place.below segment⟩
          ⟨none, start'.scope context, start'.below segment'⟩ :=
        ⟨rfl, alike.scope_eq, same⟩
      obtain ⟨goal', arrives, alike'⟩ := induction behind later
      rw [← same] at allowed
      rw [← key] at kind
      exact ⟨goal', Arrives.logical allowed kind arrives, alike'⟩
  | @quantifier segment rest place goal allowed kind _ induction =>
      obtain ⟨segment', rest', rfl, key, later⟩ := List.map_eq_cons_iff.mp keys
      have same := alike.below_eq key
      have behind : Arrival.Alike
          ⟨none, quantified context (place.scope context) place.previous, place.below segment⟩
          ⟨none, quantified context (start'.scope context) start'.previous,
            start'.below segment'⟩ :=
        ⟨rfl, by rw [quantified, quantified, alike.parentField?_eq, alike.scope_eq], same⟩
      obtain ⟨goal', arrives, alike'⟩ := induction behind later
      rw [← same] at allowed
      rw [← key] at kind
      exact ⟨goal', Arrives.quantifier allowed kind arrives, alike'⟩
  | @plain segment next rest place goal allowed kind followed free _ induction =>
      obtain ⟨segment', rest', rfl, key, later⟩ := List.map_eq_cons_iff.mp keys
      have same := alike.below_eq key
      have behind : Arrival.Alike ⟨some segment, next, place.below segment⟩
          ⟨some segment', next, start'.below segment'⟩ :=
        ⟨congrArg some key, rfl, same⟩
      obtain ⟨goal', arrives, alike'⟩ := induction behind later
      rw [← same] at allowed free
      rw [← key] at kind
      rw [← key, ← alike.scope_eq] at followed free
      exact ⟨goal', Arrives.plain allowed kind followed free arrives, alike'⟩

theorem walk_of_arrives {nested : Nesting} {change : Option FieldOverride} {way rest : List String}
    {start goal : Arrival} {tree : Tree} (arrives : Arrives context way start goal)
    (more : rest ≠ [])
    (walked : walk context nested change rest goal.previous goal.model goal.path =
      .ok (some tree)) :
    walk context nested change (way ++ rest) start.previous start.model start.path =
      .ok (some (around way tree)) := by
  induction arrives with
  | here place => exact walked
  | @logical segment way place goal allowed kind _ induction =>
      have behind : walk context nested change (way ++ rest) none
          (scopeAt context place.model place.path)
          (Path.child place.path (Path.keyOf segment)) = .ok (some (around way tree)) :=
        induction walked
      rw [List.cons_append, walk_of_logical allowed kind, behind]
      simp only [around, List.foldr_cons, kind]
      rfl
  | @quantifier segment way place goal allowed kind _ induction =>
      have behind : walk context nested change (way ++ rest) none
          (quantified context (scopeAt context place.model place.path) place.previous)
          (Path.child place.path (Path.keyOf segment)) = .ok (some (around way tree)) :=
        induction walked
      rw [List.cons_append, walk_of_quantifier allowed kind, behind]
      simp only [around, List.foldr_cons, kind]
      rfl
  | @plain segment next way place goal allowed kind followed free _ induction =>
      have behind : walk context nested change (way ++ rest) (some segment) next
          (Path.child place.path (Path.keyOf segment)) = .ok (some (around way tree)) :=
        induction walked
      have into : descent context nested (scopeAt context place.model place.path)
          (Path.keyOf segment) (Path.endsInMarker segment)
          (Path.child place.path (Path.keyOf segment)) = .into next :=
        descent_of_followed followed free _
      rw [List.cons_append,
        walk_of_into allowed kind (List.append_ne_nil_of_right_ne_nil way more) into, behind]
      simp only [around, List.foldr_cons, kind]
      rfl

/-- What stands under a membership operator behind a field. -/
theorem walk_of_membership {operator : String} {place : Arrival} {field : Field}
    (allowed : context.isAllowed (place.below operator) = true)
    (kind : Operator.ofKey? (Path.keyOf operator) = some .membership)
    (found : parentField? context (place.scope context) place.previous = some field)
    (leafType : context.isLeafType field.typeTag = true) (nested : Nesting)
    (change : Option FieldOverride) (rest : List String) :
    walk context nested change (operator :: rest) place.previous place.model place.path =
      .ok (some (.single (Path.keyOf operator) (.leaf (.array
        (if (context.allow.valuesBelow (place.below operator)).isEmpty then
          context.registry.leafExpr field.typeTag
        else .enumeration (context.allow.valuesBelow (place.below operator))))))) := by
  have allowed' : context.isAllowed (Path.child place.path (Path.keyOf operator)) = true := allowed
  have found' : parentField? context (scopeAt context place.model place.path) place.previous =
    some field := found
  rw [walk, if_pos allowed']
  simp only [kind]
  rw [← scopeAt, found', Option.map_some, mapType_of_isLeafType leafType,
    listedLiterals_eq_valuesBelow]
  rfl

/-- A membership operator behind a field of a leaf type is the same leaf for all walks that go
through it: an array of the values listed below it, each of them once, or of any value of the field
if no entry lists one. -/
theorem membership_exact {way : List String} {start place : Arrival} {operator : String}
    {field : Field} (arrives : Arrives context way start place)
    (kind : Path.keyOf operator ∈ ["in", "notIn"])
    (allowed : context.isAllowed (place.below operator) = true)
    (found : parentField? context (place.scope context) place.previous = some field)
    (leafType : context.isLeafType field.typeTag = true) :
    (context.allow.valuesBelow (place.below operator)).Nodup ∧
      ∀ nested change way' operator' literal,
        way'.map Path.keyOf = way.map Path.keyOf → Path.keyOf operator' = Path.keyOf operator →
          walk context nested change (way' ++ operator' :: literal) start.previous start.model
              start.path =
            .ok (some (around way' (.single (Path.keyOf operator) (.leaf (.array
              (if context.allow.valuesBelow (place.below operator) = [] then
                context.registry.leafExpr field.typeTag
              else .enumeration (context.allow.valuesBelow (place.below operator)))))))) := by
  refine ⟨nodup_valuesBelow _ _, ?_⟩
  intro nested change way' operator' literal keys key
  obtain ⟨place', arrives', alike⟩ := arrives.of_keys ⟨rfl, rfl, rfl⟩ keys
  have same := alike.below_eq key
  have membership : Operator.ofKey? (Path.keyOf operator') = some .membership := by
    rw [key]
    rcases List.mem_pair.mp kind with written | written <;> rw [written] <;> decide
  rw [← alike.parentField?_eq] at found
  rw [← same] at allowed ⊢
  have walked := walk_of_membership allowed membership found leafType nested change literal
  rw [walk_of_arrives arrives' (List.cons_ne_nil _ _) walked, key]
  simp only [List.isEmpty_iff]

end Synthesis

/-- Accounts, asked for by their status. Two of the entries list the same value, and list markers
stand on some of the segments. -/
def statusAccounts : Context where
  registry :=
    { models := ⟨[("account", ⟨⟨[("status", { typeTag := "Status" })], by decide⟩⟩)], by decide⟩
      enums := ⟨[("Status", ["ACTIVE", "INACTIVE", "CLOSED"])], by decide⟩ }
  synonyms := Synonyms.empty
  allow := AllowList.ofPaths
    ["where.status.in[].INACTIVE", "where.status.in.ACTIVE", "where[].status.in.INACTIVE"]

theorem membership_exact_statusAccounts :
    (AllowEntry.bare "where[].status.in.INACTIVE").segments =
        ["where[]", "status"] ++ "in" :: ["INACTIVE"] ∧
      (AllowEntry.bare "where[].status.in.INACTIVE").contribution statusAccounts "account" =
        .ok (some (.single "where" (.listOf (.single "status" (.single "in"
          (.leaf (.array (.enumeration ["INACTIVE", "ACTIVE"])))))))) ∧
      (Expr.array (.enumeration ["INACTIVE", "ACTIVE"])).text =
        "z.array(z.enum([\"INACTIVE\",\"ACTIVE\"]))" := by
  have listed : statusAccounts.allow.valuesBelow "where.status.in" = ["INACTIVE", "ACTIVE"] := by
    decide +kernel
  have arrives : Synthesis.Arrives statusAccounts ["where", "status"] ⟨none, "account", ""⟩
      ⟨some "status", "account", "where.status"⟩ := by
    have status : Synthesis.Arrives statusAccounts ["status"] ⟨some "where", "account", "where"⟩
        ⟨some "status", "account", "where.status"⟩ := by
      refine .plain (by decide +kernel) (by decide) (by rfl) ?_ (.here _)
      intro field found related
      cases found
      exact absurd related (by decide)
    refine .plain (by decide +kernel) (by decide) (by rfl) ?_ status
    intro field found
    cases found
  have split : (AllowEntry.bare "where[].status.in.INACTIVE").segments =
      ["where[]", "status"] ++ "in" :: ["INACTIVE"] := by decide +kernel
  have printed : (Expr.array (.enumeration ["INACTIVE", "ACTIVE"])).text =
      "z.array(z.enum([\"INACTIVE\",\"ACTIVE\"]))" := by decide +kernel
  refine ⟨split, ?_, printed⟩
  have allowed : statusAccounts.isAllowed (Synthesis.Arrival.below
      ⟨some "status", "account", "where.status"⟩ "in") = true := by decide +kernel
  have walked := (Synthesis.membership_exact arrives (by decide) allowed (by rfl) (by decide)).2
      (Synthesis.nestedWithin statusAccounts (Synthesis.nestingBound statusAccounts)) none
      ["where[]", "status"] "in" ["INACTIVE"] (by decide) rfl
  rw [AllowEntry.contribution, synthesize, split]
  refine walked.trans ?_
  have below : Synthesis.Arrival.below ⟨some "status", "account", "where.status"⟩ "in" =
    "where.status.in" := by decide +kernel
  rw [below, listed]
  rfl

end ScopedSchema
