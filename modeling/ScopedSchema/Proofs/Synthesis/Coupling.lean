import ScopedSchema.Proofs.RelationOperation
import ScopedSchema.Proofs.Synthesis.Request

/-!
# Two walks side by side

Two walks over the same segments take the same steps as long as their allow lists decide alike. What
is known of the outcomes of their relations then holds of their own outcomes, provided that it is
kept by what a walk puts around a tree. Three uses follow: a walk depends on what the allow list
says at its places and below, more depth never changes an outcome, and finding nothing does not
depend on relations at all.
-/

namespace ScopedSchema

namespace Synthesis

open Outcome

/-- What a walk or a relation makes of a tree without giving it a further name. -/
inductive Around : (Tree → Tree) → Prop
  | listOf : Around Tree.listOf
  | nullable : Around Tree.asOptional
  | operations {schemas : List (RelationOperation × Expr)} :
      (schemas.map fun entry => entry.1.name).Nodup →
      Around (Tree.merge (.object (operationMembers schemas)))

/-- A relation between outcomes that is kept as long as two walks stay at one place. -/
structure PlaceCoupling (Alike : Contribution → Contribution → Prop) : Prop where
  nothing : Alike (.ok none) (.ok none)
  leaf : ∀ expr, Alike (.ok (some (.leaf expr))) (.ok (some (.leaf expr)))
  around : ∀ {change first second}, Around change → Alike first second →
    Alike (first.map (Option.map change)) (second.map (Option.map change))

/-- A relation between outcomes that two walks keep from place to place. -/
structure Coupling (Alike : Contribution → Contribution → Prop) : Prop extends
    PlaceCoupling Alike where
  single : ∀ key first second, Alike first second →
    Alike (first.map (Option.map (Tree.single key))) (second.map (Option.map (Tree.single key)))

section

variable {context : Context} {allow : AllowList} {within : String → Prop}
  (agrees : context.AgreesOn allow within)
  {Alike : Contribution → Contribution → Prop} (coupling : PlaceCoupling Alike)
  {nested nested' : Nesting}

include coupling

theorem PlaceCoupling.markList {first second : Contribution} (isList : Bool)
    (alike : Alike first second) :
    Alike (first.map (Option.map (Synthesis.markList isList)))
      (second.map (Option.map (Synthesis.markList isList))) := by
  cases isList with
  | true => exact coupling.around Around.listOf alike
  | false =>
      have same : Synthesis.markList false = id := rfl
      have unchanged : ∀ outcome : Contribution, outcome.map (Option.map id) = outcome := by
        intro outcome
        cases outcome with
        | error problem => rfl
        | ok found => simp [Except.map]
      rw [same, unchanged, unchanged]
      exact alike

include agrees

theorem PlaceCoupling.relation {path : String} (inside : within path)
    (below : ∀ target skip, Alike ((nested target path skip).map some)
      ((nested' target path skip).map some)) (field : Field) (isList : Bool) :
    Alike ((Synthesis.relation context nested field isList path).map some)
      ((Synthesis.relation (context.withAllow allow) nested' field isList path).map some) := by
  have resolved : (context.withAllow allow).resolveModel? field.typeTag =
      context.resolveModel? field.typeTag := rfl
  have wrapped : ∀ (outcome : Except GenerationError Tree) (change : Tree → Tree),
      (outcome.map some).map (Option.map change) = (outcome.map change).map some := by
    intro outcome change
    cases outcome <;> rfl
  unfold Synthesis.relation
  rw [resolved]
  cases context.resolveModel? field.typeTag with
  | none => exact coupling.leaf .any
  | some target =>
      simp only
      rw [agrees.allowedOperations inside]
      cases (allowedOperations context path).isEmpty with
      | true =>
          simp only [if_true]
          rw [← wrapped, ← wrapped]
          cases isList with
          | true => exact coupling.around Around.listOf (below target false)
          | false =>
              cases field.isOptional with
              | true => exact coupling.around Around.nullable (below target false)
              | false => exact coupling.markList false (below target false)
      | false =>
          simp only [Bool.false_eq_true, if_false]
          rw [agrees.relationOperations? inside]
          cases identified : relationOperations? context target path field.isList with
          | none => exact coupling.leaf .any
          | some schemas =>
              have once := names_nodup_of_relationOperations? identified
              have merged := coupling.around (Around.operations once) (below target true)
              rw [wrapped, wrapped] at merged
              cases field.isOptional with
              | false => exact merged
              | true =>
                  have nullable := coupling.around Around.nullable merged
                  have composed : ∀ outcome : Except GenerationError Tree,
                      ((outcome.map (Tree.merge (.object (operationMembers schemas)))).map
                        some).map (Option.map Tree.asOptional) =
                      (outcome.map fun below =>
                        ((Tree.object (operationMembers schemas)).merge below).asOptional).map
                          some := by
                    intro outcome
                    cases outcome <;> rfl
                  rw [composed, composed] at nullable
                  exact nullable

theorem PlaceCoupling.leafValue {path : String} (inside : within path)
    (change : Option FieldOverride) (isOptional isList : Bool) (tag : String) :
    Alike (.ok (some (Synthesis.leaf context change isOptional isList tag path)))
      (.ok (some
        (Synthesis.leaf (context.withAllow allow) change isOptional isList tag path))) := by
  unfold Synthesis.leaf
  rw [agrees.mapType inside]
  exact coupling.markList isList (coupling.leaf _)

theorem PlaceCoupling.terminal {path : String} (inside : within path)
    (below : ∀ target skip, Alike ((nested target path skip).map some)
      ((nested' target path skip).map some)) {change change' : Option FieldOverride}
    {isList : Bool}
    (values : ∀ isOptional tag,
      Alike (.ok (some (Synthesis.leaf context change isOptional isList tag path)))
        (.ok (some
          (Synthesis.leaf (context.withAllow allow) change' isOptional isList tag path))))
    (scope key : String) :
    Alike (Synthesis.terminal context nested change scope key isList path)
      (Synthesis.terminal (context.withAllow allow) nested' change' scope key isList path) := by
  unfold Synthesis.terminal
  have field : (context.withAllow allow).registry.field? scope key =
      context.registry.field? scope key := rfl
  have leafType : ∀ tag, (context.withAllow allow).isLeafType tag = context.isLeafType tag :=
    fun _ => rfl
  rw [field]
  cases context.registry.field? scope key with
  | none =>
      have enum : (context.withAllow allow).registry.hasEnum key = context.registry.hasEnum key :=
        rfl
      simp only
      rw [enum]
      cases context.registry.hasEnum key with
      | true => exact values false key
      | false => exact coupling.nothing
  | some field =>
      simp only [leafType]
      cases context.isLeafType field.typeTag with
      | true => exact values field.isOptional field.typeTag
      | false => exact coupling.relation agrees inside below field isList

theorem PlaceCoupling.descent {path : String} (inside : within path)
    (below : ∀ target skip, Alike ((nested target path skip).map some)
      ((nested' target path skip).map some)) {behind behind' : String → Contribution}
    (further : ∀ model, Alike (behind model) (behind' model)) (scope key : String)
    (isList : Bool) :
    Alike (match Synthesis.descent context nested scope key isList path with
        | .stop tree => tree.map some
        | .into next => (behind next).map (Option.map (Synthesis.markList isList)))
      (match Synthesis.descent (context.withAllow allow) nested' scope key isList path with
        | .stop tree => tree.map some
        | .into next => (behind' next).map (Option.map (Synthesis.markList isList))) := by
  unfold Synthesis.descent
  have field : (context.withAllow allow).registry.field? scope key =
      context.registry.field? scope key := rfl
  have leafType : ∀ tag, (context.withAllow allow).isLeafType tag = context.isLeafType tag :=
    fun _ => rfl
  have resolved : ∀ tag, (context.withAllow allow).resolveModel? tag = context.resolveModel? tag :=
    fun _ => rfl
  rw [field]
  cases context.registry.field? scope key with
  | none => exact coupling.markList isList (further scope)
  | some field =>
      simp only [leafType, resolved]
      rw [agrees.allowedOperations inside]
      cases context.isLeafType field.typeTag with
      | true => exact coupling.markList isList (further scope)
      | false =>
          simp only [Bool.false_eq_true, if_false]
          cases (allowedOperations context path).isEmpty with
          | false => exact coupling.relation agrees inside below field isList
          | true =>
              simp only [Bool.not_true, Bool.false_eq_true, if_false]
              cases context.resolveModel? field.typeTag with
              | none => exact coupling.leaf .any
              | some target => exact coupling.markList isList (further target)

variable (literals : ∀ {path}, within path →
    listedLiterals (context.withAllow allow) path = listedLiterals context path)

include literals

/-- Where the walks of the later segments are alike, those from the segment at hand are, once the
name of the segment is around them. -/
theorem PlaceCoupling.step {Outer : Contribution → Contribution → Prop}
    {change change' : Option FieldOverride} {segment : String} {rest : List String}
    {previous : Option String} {model path : String} (nothing : Outer (.ok none) (.ok none))
    (single : ∀ first second, Alike first second →
      Outer (first.map (Option.map (Tree.single (Path.keyOf segment))))
        (second.map (Option.map (Tree.single (Path.keyOf segment)))))
    (inside : within (Path.child path (Path.keyOf segment)))
    (below : ∀ target skip,
      Alike ((nested target (Path.child path (Path.keyOf segment)) skip).map some)
        ((nested' target (Path.child path (Path.keyOf segment)) skip).map some))
    (values : rest = [] → ∀ isOptional tag,
      Alike
        (.ok (some (Synthesis.leaf context change isOptional (Path.endsInMarker segment) tag
          (Path.child path (Path.keyOf segment)))))
        (.ok (some (Synthesis.leaf (context.withAllow allow) change' isOptional
          (Path.endsInMarker segment) tag (Path.child path (Path.keyOf segment))))))
    (further : ∀ previous model,
      Alike (Synthesis.walk context nested change rest previous model
          (Path.child path (Path.keyOf segment)))
        (Synthesis.walk (context.withAllow allow) nested' change' rest previous model
          (Path.child path (Path.keyOf segment)))) :
    Outer (Synthesis.walk context nested change (segment :: rest) previous model path)
      (Synthesis.walk (context.withAllow allow) nested' change' (segment :: rest) previous model
        path) := by
  rw [Synthesis.walk, Synthesis.walk]
  have allowed : (context.withAllow allow).isAllowed (Path.child path (Path.keyOf segment)) =
      context.isAllowed (Path.child path (Path.keyOf segment)) := agrees.allowed inside
  have scope : (context.withAllow allow).modelOfPath? path = context.modelOfPath? path := rfl
  have parent : ∀ scope, parentField? (context.withAllow allow) scope previous =
      parentField? context scope previous := fun _ => rfl
  have target : ∀ scope, quantified (context.withAllow allow) scope previous =
      quantified context scope previous := fun _ => rfl
  simp only [allowed, scope, parent, target]
  cases context.isAllowed (Path.child path (Path.keyOf segment)) with
  | false => exact nothing
  | true =>
      simp only [if_true]
      apply single
      generalize (context.modelOfPath? path).getD model = scope
      cases Operator.ofKey? (Path.keyOf segment) with
      | some operator =>
          cases operator with
          | logical => exact coupling.around Around.listOf (further none scope)
          | quantifier => exact further none _
          | pagination => exact coupling.leaf .number
          | stringMatch => exact coupling.leaf .string
          | membership =>
              simp only [agrees.mapType inside, literals inside]
              cases parentField? context scope previous with
              | none => exact coupling.nothing
              | some field => exact coupling.leaf _
          | comparison =>
              simp only [agrees.mapType inside]
              cases parentField? context scope previous with
              | none => exact coupling.nothing
              | some field => exact coupling.leaf _
      | none =>
          simp only
          cases last : rest.isEmpty with
          | true =>
              exact coupling.terminal agrees inside below (values (by simpa using last)) scope _
          | false =>
              exact coupling.descent agrees inside below (fun model => further (some segment) model)
                scope _ _

end

section

variable {context : Context} {allow : AllowList} {within : String → Prop}
  (agrees : context.AgreesOn allow within)
  {Alike : Contribution → Contribution → Prop} (coupling : Coupling Alike)
  {nested nested' : Nesting}
  (literals : ∀ {path}, within path →
    listedLiterals (context.withAllow allow) path = listedLiterals context path)

include agrees coupling literals

/-- Two walks over the same segments are alike if their relations are. -/
theorem Coupling.walk {change : Option FieldOverride}
    (below : ∀ {path}, within path → ∀ target skip, Alike ((nested target path skip).map some)
      ((nested' target path skip).map some))
    {segment : String} {rest : List String} {previous : Option String} {model path : String}
    (inside : within (Path.child path (Path.keyOf segment))) :
    Alike (Synthesis.walk context nested change (segment :: rest) previous model path)
      (Synthesis.walk (context.withAllow allow) nested' change (segment :: rest) previous model
        path) := by
  induction rest generalizing segment previous model path with
  | nil =>
      apply coupling.step agrees literals coupling.nothing (coupling.single _) inside (below inside)
      · intro _ isOptional tag
        exact coupling.leafValue agrees inside change isOptional _ tag
      · intro _ _
        exact coupling.nothing
  | cons next rest induction =>
      apply coupling.step agrees literals coupling.nothing (coupling.single _) inside (below inside)
      · intro last
        cases last
      · intro previous model
        exact induction (agrees.below inside _)

theorem Coupling.walkBelow {change : Option FieldOverride}
    (below : ∀ {path}, within path → ∀ target skip, Alike ((nested target path skip).map some)
      ((nested' target path skip).map some))
    (segments : List String) (previous : Option String) (model : String) {path : String}
    (inside : within path) :
    Alike (Synthesis.walk context nested change segments previous model path)
      (Synthesis.walk (context.withAllow allow) nested' change segments previous model path) := by
  cases segments with
  | nil => exact coupling.nothing
  | cons segment rest => exact coupling.walk agrees literals below (agrees.below inside _)

end

/-! ## Allow lists that hold the same entries below a place -/

/-- The allow lists decide alike at the places of a region and hold the same entries below them. -/
structure SharesOn (context : Context) (allow : AllowList) (within : String → Prop) : Prop extends
    context.AgreesOn allow within where
  descendants : ∀ {path}, within path → allow.descendants path = context.allow.descendants path

theorem coupling_eq : Coupling fun first second => second = first where
  nothing := rfl
  leaf := fun _ => rfl
  around := by
    intro change first second _ same
    rw [same]
  single := by
    intro key first second same
    rw [same]

namespace SharesOn

variable {context : Context} {allow : AllowList} {within : String → Prop}
  (shares : SharesOn context allow within)

include shares

theorem listedLiterals {path : String} (inside : within path) :
    Synthesis.listedLiterals (context.withAllow allow) path =
      Synthesis.listedLiterals context path := by
  unfold Synthesis.listedLiterals
  have descendants : (context.withAllow allow).allow.descendants path =
      context.allow.descendants path := shares.descendants inside
  rw [descendants]

theorem nestedWithin {path : String} (inside : within path) (depth : Nat) (target : String)
    (skip : Bool) :
    Synthesis.nestedWithin (context.withAllow allow) depth target path skip =
      Synthesis.nestedWithin context depth target path skip := by
  induction depth generalizing path target skip with
  | zero => rfl
  | succ depth induction =>
      have descendants : (context.withAllow allow).allow.descendants path =
          context.allow.descendants path := shares.descendants inside
      have walked : ∀ descendant : Descendant,
          Synthesis.walk (context.withAllow allow)
            (Synthesis.nestedWithin (context.withAllow allow) depth) descendant.entry.change?
            descendant.remaining none target path =
          Synthesis.walk context (Synthesis.nestedWithin context depth) descendant.entry.change?
            descendant.remaining none target path := by
        intro descendant
        apply coupling_eq.walkBelow shares.toAgreesOn shares.listedLiterals _ _ _ _ inside
        intro path inside target skip
        rw [induction inside]
      have same : chosen (context.withAllow allow) path skip = chosen context path skip := by
        rw [chosen, chosen, descendants]
      rw [nestedWithin_succ, nestedWithin_succ, same]
      simp only [walked]

/-- A walk depends on what the allow list says at its places and below, and on nothing else of
it. -/
theorem walk {change : Option FieldOverride} {segment : String} {rest : List String}
    {previous : Option String} {model path : String}
    (inside : within (Path.child path (Path.keyOf segment))) (depth : Nat) :
    Synthesis.walk (context.withAllow allow)
        (Synthesis.nestedWithin (context.withAllow allow) depth) change (segment :: rest) previous
        model path =
      Synthesis.walk context (Synthesis.nestedWithin context depth) change (segment :: rest)
        previous model path := by
  apply coupling_eq.walk shares.toAgreesOn shares.listedLiterals _ inside
  intro path inside target skip
  rw [shares.nestedWithin inside]

end SharesOn

/-! ## Depth -/

theorem coupling_kept : Coupling fun first second =>
    ∀ found, first = .ok found → second = .ok found where
  nothing := fun _ same => same
  leaf := fun _ _ same => same
  around := by
    intro change first second _ kept found mapped
    obtain ⟨value, here, same⟩ := map_eq_ok_iff.mp mapped
    exact map_eq_ok_iff.mpr ⟨value, kept value here, same⟩
  single := by
    intro key first second kept found mapped
    obtain ⟨value, here, same⟩ := map_eq_ok_iff.mp mapped
    exact map_eq_ok_iff.mpr ⟨value, kept value here, same⟩

theorem sharesOn_self (context : Context) : SharesOn context context.allow fun _ => True where
  below := fun _ _ => trivial
  allowed := fun _ => rfl
  descendants := fun _ => rfl

/-- Where the first account of the entries below relations has a result, the second has it too. -/
def Extends (nested nested' : Nesting) : Prop :=
  ∀ target path skip tree, nested target path skip = .ok tree → nested' target path skip = .ok tree

variable {context : Context}

theorem walk_extends {nested nested' : Nesting} (wider : Extends nested nested')
    {change : Option FieldOverride} {segments : List String} {previous : Option String}
    {model path : String} {found : Option Tree}
    (walked : walk context nested change segments previous model path = .ok found) :
    walk context nested' change segments previous model path = .ok found := by
  have shares := sharesOn_self context
  refine coupling_kept.walkBelow shares.toAgreesOn shares.listedLiterals ?_ segments previous model
    trivial found walked
  intro path _ target skip value nestedHere
  obtain ⟨tree, here, same⟩ := map_eq_ok_iff.mp nestedHere
  exact map_eq_ok_iff.mpr ⟨tree, wider target path skip tree here, same⟩

theorem nestedWithin_extends_succ (depth : Nat) :
    Extends (nestedWithin context depth) (nestedWithin context (depth + 1)) := by
  induction depth with
  | zero =>
      intro target path skip tree found
      cases found
  | succ depth induction =>
      intro target path skip tree found
      obtain ⟨results, all, merged⟩ := nestedWithin_succ_eq_ok found
      have deeper : List.Forall₂ (fun descendant result =>
          walk context (nestedWithin context (depth + 1)) descendant.entry.change?
            descendant.remaining none target path = .ok result)
          (chosen context path skip) results :=
        all.imp fun _ _ walked => walk_extends induction walked
      rw [nestedWithin_succ]
      exact map_eq_ok_iff.mpr ⟨results, mapM_eq_ok_iff.mpr deeper, merged.symm⟩

/-- More depth never changes a result. -/
theorem nestedWithin_extends {depth depth' : Nat} (deeper : depth ≤ depth') :
    Extends (nestedWithin context depth) (nestedWithin context depth') := by
  induction deeper with
  | refl => exact fun _ _ _ _ found => found
  | step _ induction =>
      intro target path skip tree found
      exact nestedWithin_extends_succ _ target path skip tree
        (induction target path skip tree found)

/-! ## Finding nothing -/

theorem coupling_nothing : Coupling fun first second =>
    first = .ok none → second = .ok none where
  nothing := fun same => same
  leaf := fun _ same => same
  around := by
    intro change first second _ kept mapped
    obtain ⟨value, here, same⟩ := map_eq_ok_iff.mp mapped
    rw [Option.map_eq_none_iff.mp same] at here
    rw [kept here]
    rfl
  single := by
    intro key first second kept mapped
    obtain ⟨value, here, same⟩ := map_eq_ok_iff.mp mapped
    rw [Option.map_eq_none_iff.mp same] at here
    rw [kept here]
    rfl

/-- A walk that comes to a relation finds something, so finding nothing does not depend on what
stands below relations. -/
theorem walk_eq_nothing {nested : Nesting} (nested' : Nesting) {change : Option FieldOverride}
    {segments : List String} {previous : Option String} {model path : String}
    (walked : walk context nested change segments previous model path = .ok none) :
    walk context nested' change segments previous model path = .ok none := by
  have shares := sharesOn_self context
  refine coupling_nothing.walkBelow shares.toAgreesOn shares.listedLiterals ?_ segments previous
    model trivial walked
  intro path _ target skip absent
  obtain ⟨tree, _, same⟩ := map_eq_ok_iff.mp absent
  cases same

end Synthesis

end ScopedSchema
