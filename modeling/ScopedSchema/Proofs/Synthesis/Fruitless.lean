import ScopedSchema.Proofs.Synthesis.Contribution
import ScopedSchema.Proofs.Synthesis.Coverage
import ScopedSchema.Proofs.Synthesis.Walk

/-!
# Entries that contribute nothing

An entry that contributes nothing can be left out. Where the walk of another entry shares its path,
both take the same steps, and each step of the fruitless one is then a logical operator, an operator
without a field or a plain step on the way: a relation with operations, a listed value or a wider
expansion would be a contribution. Where the paths part, nothing is asked of the entry any more.
-/

namespace ScopedSchema

namespace Synthesis

open Outcome

/-- As far as the entry goes through the place that these keys spell, its walk from there finds
nothing. -/
def Fruitless (context : Context) (entry : AllowEntry) (keys : List String)
    (previous : Option String) (model path : String) : Prop :=
  keys <+: entry.keys → ∀ nested,
    walk context nested entry.change? (entry.segments.drop keys.length) previous model path =
      .ok none

variable {context : Context}

/-! ## Steps that find nothing -/

/-- How a segment with others behind it comes to nothing at an allowed place. -/
theorem walk_eq_nothing_cases {nested : Nesting} {change : Option FieldOverride} {segment : String}
    {rest : List String} {previous : Option String} {model path : String} (more : rest ≠ [])
    (allowed : context.isAllowed (Path.child path (Path.keyOf segment)) = true)
    (walked : walk context nested change (segment :: rest) previous model path = .ok none) :
    (Operator.ofKey? (Path.keyOf segment) = some .logical ∧
      walk context nested change rest none (scopeAt context model path)
        (Path.child path (Path.keyOf segment)) = .ok none) ∨
    Operator.ofKey? (Path.keyOf segment) = some .quantifier ∨
    ((Operator.ofKey? (Path.keyOf segment) = some .membership ∨
        Operator.ofKey? (Path.keyOf segment) = some .comparison) ∧
      parentField? context (scopeAt context model path) previous = none) ∨
    (Operator.ofKey? (Path.keyOf segment) = none ∧
      ∃ next, descent context nested (scopeAt context model path) (Path.keyOf segment)
          (Path.endsInMarker segment) (Path.child path (Path.keyOf segment)) = .into next ∧
        walk context nested change rest (some segment) next
          (Path.child path (Path.keyOf segment)) = .ok none) := by
  have absent : ∀ {outcome : Contribution} {change : Tree → Tree},
      outcome.map (Option.map change) = .ok none → outcome = .ok none := by
    intro outcome change mapped
    obtain ⟨found, same, none⟩ := map_eq_ok_iff.mp mapped
    rw [same, Option.map_eq_none_iff.mp none]
  have last : rest.isEmpty = false := by simpa using more
  rw [walk] at walked
  simp only [allowed, if_true] at walked
  have valued := absent walked
  rw [← scopeAt] at valued
  cases kind : Operator.ofKey? (Path.keyOf segment) with
  | some operator =>
      rw [kind] at valued
      cases operator with
      | logical => exact Or.inl ⟨rfl, absent valued⟩
      | quantifier => exact Or.inr (Or.inl rfl)
      | pagination => cases Except.ok.inj valued
      | stringMatch => cases Except.ok.inj valued
      | membership =>
          have parent := Option.map_eq_none_iff.mp (Except.ok.inj valued)
          exact Or.inr (Or.inr (Or.inl ⟨Or.inl rfl, parent⟩))
      | comparison =>
          have parent := Option.map_eq_none_iff.mp (Except.ok.inj valued)
          exact Or.inr (Or.inr (Or.inl ⟨Or.inr rfl, parent⟩))
  | none =>
      rw [kind] at valued
      simp only [last, Bool.false_eq_true, if_false] at valued
      split at valued
      · obtain ⟨tree, _, same⟩ := map_eq_ok_iff.mp valued
        cases same
      · rename_i next into
        exact Or.inr (Or.inr (Or.inr ⟨rfl, next, into, absent valued⟩))

/-- Of the segment before it, a walk knows the field that its key names. -/
theorem walk_congr_previous {nested : Nesting} {change : Option FieldOverride}
    {before before' : String} (same : Path.keyOf before = Path.keyOf before')
    (segments : List String) (model path : String) :
    walk context nested change segments (some before) model path =
      walk context nested change segments (some before') model path := by
  cases segments with
  | nil => rw [walk, walk]
  | cons segment rest =>
      have parent : ∀ scope, parentField? context scope (some before) =
          parentField? context scope (some before') := by
        intro scope
        rw [parentField?, parentField?, Option.bind_some, Option.bind_some, same]
      rw [walk, walk]
      simp only [quantified, parent]

/-- The operators whose values are those of the field before them. -/
def comparesField (key : String) : Bool :=
  match Operator.ofKey? key with
  | some .membership => true
  | some .comparison => true
  | _ => false

/-- Without a segment before it, a walk finds the same, unless it begins with a quantifier or with
an operator that needs the field before it. -/
theorem walk_of_no_previous {nested : Nesting} {change : Option FieldOverride} {segment : String}
    (plain : Operator.ofKey? (Path.keyOf segment) ≠ some .quantifier) (rest : List String)
    (previous : Option String) (model path : String) :
    walk context nested change (segment :: rest) none model path =
      if comparesField (Path.keyOf segment) then .ok none
      else walk context nested change (segment :: rest) previous model path := by
  rw [walk, walk, comparesField]
  cases context.isAllowed (Path.child path (Path.keyOf segment)) with
  | false => simp only [Bool.false_eq_true, if_false, ite_self]
  | true =>
      cases kind : Operator.ofKey? (Path.keyOf segment) with
      | none => rfl
      | some operator =>
          cases operator with
          | logical => rfl
          | quantifier => exact absurd kind plain
          | pagination => rfl
          | stringMatch => rfl
          | membership => rfl
          | comparison => rfl

theorem walk_eq_nothing_of_previous {nested : Nesting} {change : Option FieldOverride}
    {segments : List String} {previous : Option String} {model path : String}
    (plain : ∀ key ∈ segments.map Path.keyOf, Operator.ofKey? key ≠ some .quantifier)
    (walked : walk context nested change segments previous model path = .ok none) :
    walk context nested change segments none model path = .ok none := by
  cases segments with
  | nil => rfl
  | cons segment rest =>
      rw [walk_of_no_previous (plain _ List.mem_cons_self) rest previous, walked, ite_self]

namespace Fruitless

variable {entry : AllowEntry} {keys : List String} {previous : Option String}
  {model path : String}

theorem withoutPrevious
    (plain : ∀ key ∈ entry.keys, Operator.ofKey? key ≠ some .quantifier)
    (fruitless : Fruitless context entry keys previous model path) :
    Fruitless context entry keys none model path := by
  intro begins nested
  apply walk_eq_nothing_of_previous _ (fruitless begins nested)
  intro key member
  rw [AllowEntry.map_keyOf_drop_segments] at member
  exact plain key (List.mem_of_mem_drop member)

/-- The steps that a fruitless entry can take on its way. -/
theorem behind {key : String} (fruitless : Fruitless context entry keys previous model path)
    (listed : entry ∈ context.allow.entries) (below : entry.isBelow (keys ++ [key]) = true)
    (here : Path.keys (Path.child path key) = keys ++ [key])
    (plain : Operator.ofKey? key ≠ some .quantifier) :
    (Operator.ofKey? key = some .logical ∧
      Fruitless context entry (keys ++ [key]) none (scopeAt context model path)
        (Path.child path key)) ∨
    ((Operator.ofKey? key = some .membership ∨ Operator.ofKey? key = some .comparison) ∧
      parentField? context (scopeAt context model path) previous = none) ∨
    (Operator.ofKey? key = none ∧
      ∃ next, followed? context (scopeAt context model path) key = some next ∧
        (∀ field, context.registry.field? (scopeAt context model path) key = some field →
          context.isLeafType field.typeTag = false →
          allowedOperations context (Path.child path key) = []) ∧
        ∀ segment, Path.keyOf segment = key →
          Fruitless context entry (keys ++ [key]) (some segment) next (Path.child path key)) := by
  obtain ⟨following, later, split⟩ := AllowEntry.isBelow_iff.mp below
  have remaining :
      (entry.segments.drop keys.length).map Path.keyOf = key :: following :: later := by
    rw [AllowEntry.map_keyOf_drop_segments, split, List.append_assoc, List.drop_left]
    rfl
  obtain ⟨segment, rest, written, first, others⟩ := List.map_eq_cons_iff.mp remaining
  have more : rest ≠ [] := by
    intro none
    rw [none] at others
    cases others
  have rest_eq : entry.segments.drop (keys ++ [key]).length = rest := by
    rw [List.length_append, ← List.drop_drop, written]
    rfl
  have begins : keys <+: entry.keys := by
    rw [split, List.append_assoc]
    exact List.prefix_append _ _
  have allowed : context.isAllowed (Path.child path key) = true := by
    apply AllowList.isAllowed_iff.mpr
    refine ⟨entry, listed, ?_⟩
    rw [here, split]
    exact List.prefix_append _ _
  have walked := fruitless begins (nestedWithin context 0)
  rw [written] at walked
  rw [← first] at allowed plain
  unfold Fruitless
  rw [rest_eq]
  rcases walk_eq_nothing_cases more allowed walked with
    ⟨kind, nothing⟩ | kind | ⟨kind, parent⟩ | ⟨kind, next, into, nothing⟩
  · rw [first] at kind nothing
    exact Or.inl ⟨kind, fun _ nested => walk_eq_nothing nested nothing⟩
  · exact absurd kind plain
  · rw [first] at kind
    exact Or.inr (Or.inl ⟨kind, parent⟩)
  · rw [first] at kind into nothing
    obtain ⟨followed, free⟩ := descent_eq_into into
    refine Or.inr (Or.inr ⟨kind, next, followed, free, ?_⟩)
    intro other same begins nested
    rw [walk_congr_previous (same.trans first.symm)]
    exact walk_eq_nothing nested nothing

end Fruitless

/-! ## Other entries -/

theorem mapType_of_isLeafType {tag : String} (leafType : context.isLeafType tag = true)
    (path : String) (values : List String) (trail : Trail) :
    mapType context tag path values trail =
      if values.isEmpty then context.registry.leafExpr tag else .enumeration values := by
  rw [mapType, if_pos leafType]

theorem leaf_withAllow {allow : AllowList} {tag : String}
    (leafType : context.isLeafType tag = true) (change : Option FieldOverride)
    (isOptional isList : Bool) (path : String) :
    leaf (context.withAllow allow) change isOptional isList tag path =
      leaf context change isOptional isList tag path := by
  have leafType' : (context.withAllow allow).isLeafType tag = true := leafType
  have registry : (context.withAllow allow).registry = context.registry := rfl
  unfold leaf
  rw [mapType_of_isLeafType leafType, mapType_of_isLeafType leafType', registry]

theorem chosen_with_operations (path : String) :
    chosen context path false = context.allow.descendants path := by
  simp [chosen]

section Without

variable {entry : AllowEntry} {before after : List AllowEntry}
  (split : context.allow.entries = before ++ entry :: after)

include split

theorem mem_of_mem_without {other : AllowEntry} (member : other ∈ before ++ after) :
    other ∈ context.allow.entries := by
  rw [split]
  rcases List.mem_append.mp member with old | new
  · exact List.mem_append_left _ old
  · exact List.mem_append_right _ (List.mem_cons_of_mem _ new)

theorem mem_without_or_eq {other : AllowEntry} (member : other ∈ context.allow.entries) :
    other ∈ before ++ after ∨ other = entry := by
  rw [split] at member
  simp only [List.mem_append, List.mem_cons] at member ⊢
  rcases member with old | same | new
  · exact Or.inl (Or.inl old)
  · exact Or.inr same
  · exact Or.inl (Or.inr new)

theorem allowedOperations_without {path : String} (none : allowedOperations context path = []) :
    allowedOperations (context.withAllow ⟨before ++ after⟩) path = [] := by
  apply List.eq_nil_iff_forall_not_mem.mpr
  intro operation member
  obtain ⟨other, listed, begins⟩ :=
    AllowList.isAllowed_iff.mp (mem_allowedOperations_iff.mp member)
  have allowed : operation ∈ allowedOperations context path :=
    mem_allowedOperations_iff.mpr
      (AllowList.isAllowed_iff.mpr ⟨other, mem_of_mem_without split listed, begins⟩)
  rw [none] at allowed
  cases allowed

/-- Where the entry does not go further than another one, it is not asked for. -/
theorem sharesOn_without {keys : List String} {other : AllowEntry}
    (member : other ∈ before ++ after) (begins : keys <+: other.keys)
    (beyond : entry.isBelow keys = false) :
    SharesOn context ⟨before ++ after⟩ (Path.Within keys) where
  below := Path.within_child
  allowed := by
    intro path inside
    rw [Bool.eq_iff_iff, AllowList.isAllowed_iff, AllowList.isAllowed_iff]
    constructor
    · intro allowed
      obtain ⟨found, listed, here⟩ := allowed
      exact ⟨found, mem_of_mem_without split listed, here⟩
    · intro allowed
      obtain ⟨found, listed, here⟩ := allowed
      rcases mem_without_or_eq split listed with stays | same
      · exact ⟨found, stays, here⟩
      · -- The entry itself can only end here, and then the other one goes through here.
        rw [same] at here
        have ended := AllowEntry.keys_eq_of_not_isBelow beyond (inside.2.trans here)
        rw [ended] at here
        exact ⟨other, member, here.trans begins⟩
  descendants := by
    intro path inside
    have unlisted : entry.isBelow (Path.keys path) = false := by
      by_contra below
      obtain ⟨key, later, goes⟩ := AllowEntry.isBelow_iff.mp (Bool.of_not_eq_false below)
      have through : Path.keys path <+: entry.keys := ⟨key :: later, goes.symm⟩
      have ended := AllowEntry.keys_eq_of_not_isBelow beyond (inside.2.trans through)
      have longer := congrArg List.length goes
      have shorter := inside.2.length_le
      rw [ended, List.length_append, List.length_cons] at longer
      omega
    simp only [AllowList.descendants, split, List.filter_append, List.filter_cons, unlisted,
      Bool.false_eq_true, if_false]

/-- At the end of the other entry, where the fruitless one goes on through a plain segment. -/
theorem terminal_without {nested nested' : Nesting} {scope key path next : String}
    (kind : followed? context scope key = some next)
    (free : ∀ field, context.registry.field? scope key = some field →
      context.isLeafType field.typeTag = false → allowedOperations context path = [])
    (same : nested' next path false = nested next path false) (change : Option FieldOverride)
    (isList : Bool) :
    terminal (context.withAllow ⟨before ++ after⟩) nested' change scope key isList path =
      terminal context nested change scope key isList path := by
  have registry : (context.withAllow ⟨before ++ after⟩).registry = context.registry := rfl
  unfold terminal
  rw [registry]
  unfold followed? at kind
  cases found : context.registry.field? scope key with
  | none =>
      simp only
      cases isEnum : context.registry.hasEnum key with
      | false => simp only [Bool.false_eq_true, if_false]
      | true =>
          have leafType : context.isLeafType key = true := by
            simp [Context.isLeafType, Registry.isLeafType, isEnum]
          simp only [if_true]
          rw [leaf_withAllow leafType]
  | some field =>
      rw [found] at kind
      simp only at kind ⊢
      have leafType' : (context.withAllow ⟨before ++ after⟩).isLeafType field.typeTag =
          context.isLeafType field.typeTag := rfl
      rw [leafType']
      cases leafType : context.isLeafType field.typeTag with
      | true =>
          simp only [if_true]
          rw [leaf_withAllow leafType]
      | false =>
          have none := free field found leafType
          have none' := allowedOperations_without split none
          have resolved : context.resolveModel? field.typeTag = some next := by
            simpa [leafType] using kind
          have resolved' : (context.withAllow ⟨before ++ after⟩).resolveModel? field.typeTag =
              some next := resolved
          simp only [Bool.false_eq_true, if_false]
          unfold relation
          rw [resolved, resolved']
          simp only [none, none', List.isEmpty_nil, if_true]
          rw [same]

/-- The entries below a path: the one left out is among them, or they are all there. -/
theorem descendants_without (path : String) :
    (entry.isBelow (Path.keys path) = true ∧ ∃ early late,
      (AllowList.mk (before ++ after)).descendants path = early ++ late ∧
        context.allow.descendants path = early ++
          ⟨entry, entry.segments.drop (Path.keys path).length,
            entry.keys.drop (Path.keys path).length⟩ :: late) ∨
      (AllowList.mk (before ++ after)).descendants path = context.allow.descendants path := by
  unfold AllowList.descendants
  simp only [split, List.filter_append, List.filter_cons, List.map_append]
  cases entry.isBelow (Path.keys path) with
  | true => exact Or.inl ⟨rfl, _, _, rfl, rfl⟩
  | false => exact Or.inr rfl

variable (names : ∀ other ∈ context.allow.entries, ∀ key ∈ other.keys, Path.IsName key)
  (plain : ∀ key ∈ entry.keys, Operator.ofKey? key ≠ some .quantifier)

include names plain

/-- The walk of another entry is the same without the fruitless one, if relations are. -/
theorem walk_without {depth : Nat}
    (deeper : ∀ {keys target path}, path ≠ "" → Path.keys path = keys →
      Fruitless context entry keys none target path →
      nestedWithin (context.withAllow ⟨before ++ after⟩) depth target path false =
        nestedWithin context depth target path false)
    {other : AllowEntry} (member : other ∈ before ++ after) {segments keys : List String}
    {previous : Option String} {model path : String} (spells : Path.Spells path keys)
    (goes : other.keys = keys ++ segments.map Path.keyOf)
    (fruitless : Fruitless context entry keys previous model path) :
    walk (context.withAllow ⟨before ++ after⟩)
        (nestedWithin (context.withAllow ⟨before ++ after⟩) depth) other.change? segments previous
        model path =
      walk context (nestedWithin context depth) other.change? segments previous model path := by
  induction segments generalizing keys previous model path with
  | nil => rw [walk, walk]
  | cons segment rest induction =>
      have listed := mem_of_mem_without split member
      have through : Path.keyOf segment ∈ other.keys := by
        rw [goes]
        exact List.mem_append_right _ List.mem_cons_self
      obtain ⟨filled, here⟩ := Path.keys_child_of_spells spells (names other listed _ through)
      have goes' : other.keys = keys ++ [Path.keyOf segment] ++ rest.map Path.keyOf := by
        rw [goes, List.append_assoc]
        rfl
      have begins : keys ++ [Path.keyOf segment] <+: other.keys := by
        rw [goes']
        exact List.prefix_append _ _
      have spells' : Path.Spells (Path.child path (Path.keyOf segment))
          (keys ++ [Path.keyOf segment]) := Or.inr ⟨filled, here⟩
      cases below : entry.isBelow (keys ++ [Path.keyOf segment]) with
      | false =>
          have shares := sharesOn_without split member begins below
          exact shares.walk ⟨filled, by rw [here]⟩ depth
      | true =>
          have own : entry ∈ context.allow.entries := by
            rw [split]
            exact List.mem_append_right _ List.mem_cons_self
          have shared : Operator.ofKey? (Path.keyOf segment) ≠ some .quantifier := by
            obtain ⟨key, later, written⟩ := AllowEntry.isBelow_iff.mp below
            apply plain
            rw [written]
            simp
          have allowed : context.isAllowed (Path.child path (Path.keyOf segment)) = true :=
            AllowList.isAllowed_iff.mpr ⟨other, listed, by rw [here]; exact begins⟩
          have allowed' : (context.withAllow ⟨before ++ after⟩).isAllowed
              (Path.child path (Path.keyOf segment)) = true :=
            AllowList.isAllowed_iff.mpr ⟨other, member, by rw [here]; exact begins⟩
          have scope : ((context.withAllow ⟨before ++ after⟩).modelOfPath? path).getD model =
              scopeAt context model path := rfl
          rw [walk, walk, if_pos allowed, if_pos allowed', scope, ← scopeAt]
          apply congrArg (Except.map (Option.map (Tree.single (Path.keyOf segment))))
          rcases fruitless.behind own below here shared with
            ⟨kind, nothing⟩ | ⟨kind, parent⟩ | ⟨kind, next, followed, free, nothing⟩
          · rw [kind]
            simp only
            rw [induction spells' goes' nothing]
          · have parent' : parentField? (context.withAllow ⟨before ++ after⟩)
                (scopeAt context model path) previous = none := parent
            rcases kind with kind | kind
            · rw [kind]
              simp only [parent, parent', Option.map_none]
            · rw [kind]
              simp only [parent, parent', Option.map_none]
          · rw [kind]
            simp only
            cases rest with
            | nil =>
                have below := (nothing segment rfl).withoutPrevious plain
                simp only [List.isEmpty_nil, if_true]
                exact terminal_without split followed free (deeper filled here below) _ _
            | cons following later =>
                have free' : ∀ field, (context.withAllow ⟨before ++ after⟩).registry.field?
                    (scopeAt context model path) (Path.keyOf segment) = some field →
                    (context.withAllow ⟨before ++ after⟩).isLeafType field.typeTag = false →
                    allowedOperations (context.withAllow ⟨before ++ after⟩)
                      (Path.child path (Path.keyOf segment)) = [] := by
                  intro field found leafType
                  exact allowedOperations_without split (free field found leafType)
                have followed' : followed? (context.withAllow ⟨before ++ after⟩)
                    (scopeAt context model path) (Path.keyOf segment) = some next := followed
                simp only [List.isEmpty_cons, Bool.false_eq_true, if_false]
                rw [descent_of_followed followed free, descent_of_followed followed' free']
                simp only
                rw [induction spells' goes' (nothing segment rfl)]

/-- The entries below a relation come to the same without the fruitless one. -/
theorem nestedWithin_without {depth : Nat} {keys : List String} {target path : String}
    (filled : path ≠ "") (here : Path.keys path = keys)
    (fruitless : Fruitless context entry keys none target path) :
    nestedWithin (context.withAllow ⟨before ++ after⟩) depth target path false =
      nestedWithin context depth target path false := by
  induction depth generalizing keys target path with
  | zero => rw [nestedWithin, nestedWithin]
  | succ depth induction =>
      have walked : ∀ descendant ∈ (AllowList.mk (before ++ after)).descendants path,
          walk (context.withAllow ⟨before ++ after⟩)
              (nestedWithin (context.withAllow ⟨before ++ after⟩) depth) descendant.entry.change?
              descendant.remaining none target path =
            walk context (nestedWithin context depth) descendant.entry.change?
              descendant.remaining none target path := by
        intro descendant member
        obtain ⟨listed, goes, _⟩ := AllowList.keys_of_mem_descendants member
        rw [here, ← AllowList.map_keyOf_remaining member] at goes
        exact walk_without split names plain (fun filled here below => induction filled here below)
          listed (Or.inr ⟨filled, here⟩) goes fruitless
      have chosen' : chosen (context.withAllow ⟨before ++ after⟩) path false =
          (AllowList.mk (before ++ after)).descendants path := chosen_with_operations path
      rw [nestedWithin_succ, nestedWithin_succ, chosen', chosen_with_operations, mapM_congr walked]
      rcases descendants_without split path with ⟨below, early, late, without, whole⟩ | same
      · obtain ⟨key, rest, goes⟩ := AllowEntry.isBelow_iff.mp below
        have through : keys <+: entry.keys := by
          rw [goes, here]
          exact List.prefix_append _ _
        rw [without, whole, here]
        apply Eq.symm
        apply mapM_without
        exact fruitless through _
      · rw [same]

end Without

end Synthesis

variable {context : Context} {model : String} {entry : AllowEntry} {before after : List AllowEntry}

/-- An entry that contributes nothing can be left out: the schema is built with it and without it,
and is the same. -/
theorem buildSchema_without (registered : context.registry.hasModel model = true)
    (plain : ∀ other ∈ context.allow.entries, ∀ key ∈ other.keys,
      key ≠ "" ∧ Path.MarkerFree key ∧ Operator.ofKey? key ≠ some .quantifier)
    (split : context.allow.entries = before ++ entry :: after)
    (fruitless : entry.contribution context model = .ok none) :
    ∃ schema, buildSchema context model = .ok schema ∧
      buildSchema (context.withAllow ⟨before ++ after⟩) model = .ok schema := by
  have listed : entry ∈ context.allow.entries := by
    rw [split]
    exact List.mem_append_right _ List.mem_cons_self
  have names : ∀ other ∈ context.allow.entries, ∀ key ∈ other.keys, Path.IsName key := by
    intro other member key inside
    obtain ⟨filled, free, _⟩ := plain other member key inside
    exact Path.isName_of_mem_keys inside filled free
  have finite : ¬ Synthesis.Endless context model := by
    apply Synthesis.not_endless_of_named
    intro other member rest same
    exact (names other member "" (same ▸ List.mem_cons_self)).1 rfl
  have finite' : ¬ Synthesis.Endless (context.withAllow ⟨before ++ after⟩) model := by
    apply Synthesis.not_endless_of_named
    intro other member rest same
    have member' := Synthesis.mem_of_mem_without split member
    exact (names other member' "" (same ▸ List.mem_cons_self)).1 rfl
  have nothing : Synthesis.Fruitless context entry [] none model "" :=
    fun _ nested => Synthesis.walk_eq_nothing nested fruitless
  have same : ∀ other ∈ before ++ after,
      other.tree? (context.withAllow ⟨before ++ after⟩) model = other.tree? context model := by
    intro other member
    have contributed : other.contribution (context.withAllow ⟨before ++ after⟩) model =
        other.contribution context model := by
      apply AllowEntry.contribution_congr (AllowEntry.contribution_ends finite other)
        (AllowEntry.contribution_ends finite' other)
      intro depth
      apply Synthesis.walk_without split names fun key inside => (plain entry listed key inside).2.2
      · intro keys target path filled here below
        exact Synthesis.nestedWithin_without split names
          (fun key inside => (plain entry listed key inside).2.2) filled here below
      · exact member
      · exact Or.inl ⟨rfl, rfl⟩
      · rw [List.nil_append, AllowEntry.keys_eq_map_segments]
      · exact nothing
    rw [AllowEntry.tree?, AllowEntry.tree?, contributed]
  refine ⟨_, buildSchema_of_not_endless registered finite, ?_⟩
  have registered' : (context.withAllow ⟨before ++ after⟩).registry.hasModel model = true :=
    registered
  rw [buildSchema_of_not_endless registered' finite']
  have absent : entry.tree? context model = none := by rw [AllowEntry.tree?, fruitless]
  have trees : (before ++ after).filterMap
        (AllowEntry.tree? (context.withAllow ⟨before ++ after⟩) model) =
      context.allow.entries.filterMap (AllowEntry.tree? context model) := by
    rw [List.filterMap_congr same, split, List.filterMap_append, List.filterMap_append,
      List.filterMap_cons_none absent]
  exact congrArg (fun found => Except.ok (found.foldl Tree.merge .emptyObject)) trees

/-- Between two entries for posts stands a comparison below a field that posts do not have. -/
def comparedPosts : Context :=
  blog.withAllow ⟨[AllowEntry.bare "posts.title"] ++ AllowEntry.bare "posts.missing.equals" ::
    [AllowEntry.bare "posts"]⟩

theorem buildSchema_without_comparedPosts :
    comparedPosts.registry.hasModel "user" = true ∧
      (AllowEntry.bare "posts.missing.equals").contribution comparedPosts "user" = .ok none ∧
      ∃ schema, buildSchema comparedPosts "user" = .ok schema ∧
        buildSchema (comparedPosts.withAllow ⟨[.bare "posts.title"] ++ [.bare "posts"]⟩) "user" =
          .ok schema := by
  have registered : comparedPosts.registry.hasModel "user" = true := by decide
  have plain : ∀ other ∈ comparedPosts.allow.entries, ∀ key ∈ other.keys,
      key ≠ "" ∧ Path.MarkerFree key ∧ Operator.ofKey? key ≠ some .quantifier := by
    decide +kernel
  have fruitless : (AllowEntry.bare "posts.missing.equals").contribution comparedPosts "user" =
      .ok none := by rfl
  exact ⟨registered, fruitless, buildSchema_without registered plain rfl fruitless⟩

end ScopedSchema
