import ScopedSchema.Proofs.Synthesis.Outcome
import ScopedSchema.Synthesis

/-!
# What one step of a walk can do

`Step` lists every way in which a segment gets its value, and `Related` every way in which a
relation does. Both are stated for any account of the rest of the walk and of the entries below a
relation, so that one case analysis serves each property of synthesis: `walk_induction` derives a
property of all trees from one step and from one merge of entries.
-/

namespace ScopedSchema

namespace Synthesis

/-- The model that the fields of a segment below `path` belong to. -/
def scopeAt (context : Context) (model path : String) : String :=
  (context.modelOfPath? path).getD model

/-- The model that a plain segment leads to. Only a relation with a registered target leads to
another model, and one without a registered target ends the walk. -/
def followed? (context : Context) (scope key : String) : Option String :=
  match context.registry.field? scope key with
  | none => some scope
  | some field =>
    if context.isLeafType field.typeTag then some scope else context.resolveModel? field.typeTag

/-- One member for each operation. -/
def operationMembers (schemas : List (RelationOperation × Expr)) : List (String × Tree) :=
  schemas.map fun entry => (entry.1.name, .leaf entry.2)

def nullableIf (isOptional : Bool) (tree : Tree) : Tree :=
  if isOptional then tree.asOptional else tree

/-- The descendants that are synthesized below a relation. -/
def chosen (context : Context) (path : String) (skipOperations : Bool) : List Descendant :=
  (context.allow.descendants path).filter fun descendant =>
    !(skipOperations && descendant.remainingKeys.head?.any RelationOperation.isName)

/-- The tree of a relation, where `Nested` tells the trees of the entries below it. -/
inductive Related (context : Context) (Nested : String → String → Bool → Tree → Prop)
    (field : Field) (isList : Bool) (path : String) : Tree → Prop
  | unregistered :
      context.resolveModel? field.typeTag = none →
      Related context Nested field isList path (.leaf .any)
  | entries {target : String} {below : Tree} :
      context.resolveModel? field.typeTag = some target →
      allowedOperations context path = [] →
      Nested target path false below →
      Related context Nested field isList path
        (if isList then .listOf below else nullableIf field.isOptional below)
  | unidentified {target : String} :
      context.resolveModel? field.typeTag = some target →
      allowedOperations context path ≠ [] →
      relationOperations? context target path field.isList = none →
      Related context Nested field isList path (.leaf .any)
  | operations {target : String} {schemas : List (RelationOperation × Expr)} {below : Tree} :
      context.resolveModel? field.typeTag = some target →
      allowedOperations context path ≠ [] →
      relationOperations? context target path field.isList = some schemas →
      Nested target path true below →
      Related context Nested field isList path
        (nullableIf field.isOptional ((Tree.object (operationMembers schemas)).merge below))

/-- The value of a segment, where `Walked` tells the trees of the segments behind it. -/
inductive Step (context : Context) (change : Option FieldOverride)
    (Nested : String → String → Bool → Tree → Prop)
    (Walked : Option String → String → String → Tree → Prop)
    (segment : String) (rest : List String) (previous : Option String) (scope here : String) :
    Tree → Prop
  | logical {child : Tree} :
      Operator.ofKey? (Path.keyOf segment) = some .logical →
      Walked none scope here child →
      Step context change Nested Walked segment rest previous scope here (.listOf child)
  | quantifier {child : Tree} :
      Operator.ofKey? (Path.keyOf segment) = some .quantifier →
      Walked none (quantified context scope previous) here child →
      Step context change Nested Walked segment rest previous scope here child
  | pagination :
      Operator.ofKey? (Path.keyOf segment) = some .pagination →
      Step context change Nested Walked segment rest previous scope here (.leaf .number)
  | stringMatch :
      Operator.ofKey? (Path.keyOf segment) = some .stringMatch →
      Step context change Nested Walked segment rest previous scope here (.leaf .string)
  | membership {field : Field} :
      Operator.ofKey? (Path.keyOf segment) = some .membership →
      parentField? context scope previous = some field →
      Step context change Nested Walked segment rest previous scope here
        (.leaf (.array (mapType context field.typeTag here (listedLiterals context here) [])))
  | comparison {field : Field} :
      Operator.ofKey? (Path.keyOf segment) = some .comparison →
      parentField? context scope previous = some field →
      Step context change Nested Walked segment rest previous scope here
        (.leaf (mapType context field.typeTag here [] []))
  | field {field : Field} :
      Operator.ofKey? (Path.keyOf segment) = none →
      rest = [] →
      context.registry.field? scope (Path.keyOf segment) = some field →
      context.isLeafType field.typeTag = true →
      Step context change Nested Walked segment rest previous scope here
        (leaf context change field.isOptional (Path.endsInMarker segment) field.typeTag here)
  | enum :
      Operator.ofKey? (Path.keyOf segment) = none →
      rest = [] →
      context.registry.field? scope (Path.keyOf segment) = none →
      context.registry.hasEnum (Path.keyOf segment) = true →
      Step context change Nested Walked segment rest previous scope here
        (leaf context change false (Path.endsInMarker segment) (Path.keyOf segment) here)
  | relation {field : Field} {value : Tree} :
      Operator.ofKey? (Path.keyOf segment) = none →
      context.registry.field? scope (Path.keyOf segment) = some field →
      context.isLeafType field.typeTag = false →
      Related context Nested field (Path.endsInMarker segment) here value →
      Step context change Nested Walked segment rest previous scope here value
  | plain {next : String} {child : Tree} :
      Operator.ofKey? (Path.keyOf segment) = none →
      rest ≠ [] →
      followed? context scope (Path.keyOf segment) = some next →
      (∀ field, context.registry.field? scope (Path.keyOf segment) = some field →
        context.isLeafType field.typeTag = false → allowedOperations context here = []) →
      Walked (some segment) next here child →
      Step context change Nested Walked segment rest previous scope here
        (markList (Path.endsInMarker segment) child)

theorem related_of_relation {context : Context} {nested : Nesting} {field : Field}
    {isList : Bool} {path : String} {tree : Tree}
    (found : relation context nested field isList path = .ok tree) :
    Related context (fun target path skip below => nested target path skip = .ok below)
      field isList path tree := by
  unfold relation at found
  cases resolved : context.resolveModel? field.typeTag with
  | none =>
      rw [resolved] at found
      have same : Tree.leaf .any = tree := Except.ok.inj found
      rw [← same]
      exact Related.unregistered resolved
  | some target =>
      rw [resolved] at found
      by_cases plain : allowedOperations context path = []
      · simp only [plain, List.isEmpty_nil, if_true] at found
        obtain ⟨below, nestedBelow, same⟩ := Outcome.map_eq_ok_iff.mp found
        rw [← same]
        exact Related.entries resolved plain nestedBelow
      · have some : (allowedOperations context path).isEmpty = false := by simpa using plain
        simp only [some, Bool.false_eq_true, if_false] at found
        cases identified : relationOperations? context target path field.isList with
        | none =>
            rw [identified] at found
            have same : Tree.leaf .any = tree := Except.ok.inj found
            rw [← same]
            exact Related.unidentified resolved plain identified
        | some schemas =>
            rw [identified] at found
            obtain ⟨below, nestedBelow, same⟩ := Outcome.map_eq_ok_iff.mp found
            rw [← same]
            exact Related.operations resolved plain identified nestedBelow

/-- A walk that stops at a plain segment stops there with the tree of a relation. -/
theorem descent_eq_stop {context : Context} {nested : Nesting} {scope key path : String}
    {isList : Bool} {tree : Except GenerationError Tree}
    (stopped : descent context nested scope key isList path = .stop tree) :
    ∃ field, context.registry.field? scope key = some field ∧
      context.isLeafType field.typeTag = false ∧
      tree = relation context nested field isList path := by
  unfold descent at stopped
  cases found : context.registry.field? scope key with
  | none => simp [found] at stopped
  | some field =>
      rw [found] at stopped
      cases leafType : context.isLeafType field.typeTag with
      | true => simp [leafType] at stopped
      | false =>
          refine ⟨field, rfl, leafType, ?_⟩
          by_cases plain : allowedOperations context path = []
          · cases resolved : context.resolveModel? field.typeTag with
            | some target => simp [leafType, plain, resolved] at stopped
            | none =>
                have same : Except.ok (Tree.leaf .any) = tree := by
                  simpa [leafType, plain, resolved] using stopped
                rw [← same, relation, resolved]
          · have same : relation context nested field isList path = tree := by
              simpa [leafType, plain] using stopped
            exact same.symm

theorem descent_eq_into {context : Context} {nested : Nesting} {scope key path next : String}
    {isList : Bool} (into : descent context nested scope key isList path = .into next) :
    followed? context scope key = some next ∧
      ∀ field, context.registry.field? scope key = some field →
        context.isLeafType field.typeTag = false → allowedOperations context path = [] := by
  unfold descent at into
  unfold followed?
  cases found : context.registry.field? scope key with
  | none =>
      have same : scope = next := by simpa [found] using into
      exact ⟨congrArg some same, by simp⟩
  | some field =>
      rw [found] at into
      cases leafType : context.isLeafType field.typeTag with
      | true =>
          have same : scope = next := by simpa [leafType] using into
          refine ⟨by simp [leafType, same], ?_⟩
          intro other same followed
          rw [← Option.some.inj same, leafType] at followed
          cases followed
      | false =>
          by_cases plain : allowedOperations context path = []
          · refine ⟨?_, fun _ _ _ => plain⟩
            cases resolved : context.resolveModel? field.typeTag with
            | none => simp [leafType, plain, resolved] at into
            | some target =>
                have same : target = next := by simpa [leafType, plain, resolved] using into
                simp [leafType, resolved, same]
          · simp [leafType, plain] at into

theorem step_of_terminal {context : Context} {nested : Nesting} {change : Option FieldOverride}
    {Walked : Option String → String → String → Tree → Prop} {segment : String}
    {rest : List String} {previous : Option String} {scope here : String} {value : Tree}
    (plain : Operator.ofKey? (Path.keyOf segment) = none) (last : rest = [])
    (found : terminal context nested change scope (Path.keyOf segment)
      (Path.endsInMarker segment) here = .ok (some value)) :
    Step context change (fun target path skip below => nested target path skip = .ok below) Walked
      segment rest previous scope here value := by
  unfold terminal at found
  cases named : context.registry.field? scope (Path.keyOf segment) with
  | none =>
      rw [named] at found
      cases isEnum : context.registry.hasEnum (Path.keyOf segment) with
      | false => simp [isEnum] at found
      | true =>
          simp only [isEnum, if_true] at found
          rw [← Option.some.inj (Except.ok.inj found)]
          exact Step.enum plain last named isEnum
  | some field =>
      rw [named] at found
      cases leafType : context.isLeafType field.typeTag with
      | true =>
          simp only [leafType, if_true] at found
          rw [← Option.some.inj (Except.ok.inj found)]
          exact Step.field plain last named leafType
      | false =>
          simp only [leafType, Bool.false_eq_true, if_false] at found
          obtain ⟨related, ended, same⟩ := Outcome.map_eq_ok_iff.mp found
          rw [← Option.some.inj same]
          exact Step.relation plain named leafType (related_of_relation ended)

theorem step_of_descent {context : Context} {nested : Nesting} {change : Option FieldOverride}
    {segment : String} {rest : List String} {previous : Option String} {scope here : String}
    {value : Tree} (kind : Operator.ofKey? (Path.keyOf segment) = none) (more : rest ≠ [])
    (valued : (match descent context nested scope (Path.keyOf segment)
        (Path.endsInMarker segment) here with
      | .stop tree => tree.map some
      | .into next => (walk context nested change rest (some segment) next here).map
          (Option.map (markList (Path.endsInMarker segment))) : Contribution) =
        .ok (some value)) :
    Step context change (fun target path skip below => nested target path skip = .ok below)
      (fun previous model path child =>
        walk context nested change rest previous model path = .ok (some child))
      segment rest previous scope here value := by
  split at valued
  · rename_i tree stopped
    rcases descent_eq_stop stopped with ⟨field, found, leafType, same⟩
    rcases Outcome.map_eq_ok_iff.mp valued with ⟨related, ended, same'⟩
    rw [same] at ended
    rw [← Option.some.inj same']
    exact Step.relation kind found leafType (related_of_relation ended)
  · rename_i next into
    rcases descent_eq_into into with ⟨followed, free⟩
    rcases Outcome.map_eq_ok_iff.mp valued with ⟨found, walked, mapped⟩
    rcases Option.map_eq_some_iff.mp mapped with ⟨child, inside, same⟩
    rw [inside] at walked
    rw [← same]
    exact Step.plain kind more followed free walked

theorem step_of_walk {context : Context} {nested : Nesting} {change : Option FieldOverride}
    {segment : String} {rest : List String} {previous : Option String} {model path : String}
    {tree : Tree}
    (walked : walk context nested change (segment :: rest) previous model path = .ok (some tree)) :
    context.isAllowed (Path.child path (Path.keyOf segment)) = true ∧
      ∃ value, tree = .single (Path.keyOf segment) value ∧
        Step context change (fun target path skip below => nested target path skip = .ok below)
          (fun previous model path child =>
            walk context nested change rest previous model path = .ok (some child))
          segment rest previous (scopeAt context model path) (Path.child path (Path.keyOf segment))
          value := by
  rw [walk] at walked
  by_cases allowed : context.isAllowed (Path.child path (Path.keyOf segment)) = true
  · refine ⟨allowed, ?_⟩
    simp only [allowed, if_true] at walked
    obtain ⟨found, valued, wrapped⟩ := Outcome.map_eq_ok_iff.mp walked
    obtain ⟨value, rfl, same⟩ := Option.map_eq_some_iff.mp wrapped
    refine ⟨value, same.symm, ?_⟩
    clear walked wrapped same
    cases kind : Operator.ofKey? (Path.keyOf segment) with
    | some operator =>
        rw [kind] at valued
        cases operator with
        | logical =>
            rcases Outcome.map_eq_ok_iff.mp valued with ⟨found, walked, mapped⟩
            rcases Option.map_eq_some_iff.mp mapped with ⟨child, inside, same⟩
            rw [inside] at walked
            rw [← same]
            exact Step.logical kind walked
        | quantifier => exact Step.quantifier kind valued
        | pagination =>
            rw [← Option.some.inj (Except.ok.inj valued)]
            exact Step.pagination kind
        | stringMatch =>
            rw [← Option.some.inj (Except.ok.inj valued)]
            exact Step.stringMatch kind
        | membership =>
            rcases Option.map_eq_some_iff.mp (Except.ok.inj valued) with ⟨field, parent, same⟩
            rw [← same]
            exact Step.membership kind parent
        | comparison =>
            rcases Option.map_eq_some_iff.mp (Except.ok.inj valued) with ⟨field, parent, same⟩
            rw [← same]
            exact Step.comparison kind parent
    | none =>
        rw [kind] at valued
        by_cases last : rest = []
        · simp only [last, List.isEmpty_nil, if_true] at valued
          exact step_of_terminal kind last valued
        · have more : rest.isEmpty = false := by simpa using last
          simp only [more, Bool.false_eq_true, if_false] at valued
          exact step_of_descent kind last valued
  · simp only [allowed, Bool.false_eq_true, if_false] at walked
    cases Except.ok.inj walked

/-! ## From one step to all trees -/

theorem Related.mono {context : Context} {Nested Wider : String → String → Bool → Tree → Prop}
    {field : Field} {isList : Bool} {path : String} {tree : Tree}
    (nested : ∀ target path skip tree, Nested target path skip tree → Wider target path skip tree)
    (related : Related context Nested field isList path tree) :
    Related context Wider field isList path tree := by
  cases related with
  | unregistered resolved => exact Related.unregistered resolved
  | entries resolved plain below => exact Related.entries resolved plain (nested _ _ _ _ below)
  | unidentified resolved some none => exact Related.unidentified resolved some none
  | operations resolved some identified below =>
      exact Related.operations resolved some identified (nested _ _ _ _ below)

theorem Step.mono {context : Context} {change : Option FieldOverride}
    {Nested Wider : String → String → Bool → Tree → Prop}
    {Walked Further : Option String → String → String → Tree → Prop}
    {segment : String} {rest : List String} {previous : Option String} {scope here : String}
    {value : Tree}
    (nested : ∀ target path skip tree, Nested target path skip tree → Wider target path skip tree)
    (walked : ∀ previous model path tree,
      Walked previous model path tree → Further previous model path tree)
    (step : Step context change Nested Walked segment rest previous scope here value) :
    Step context change Wider Further segment rest previous scope here value := by
  cases step with
  | logical kind child => exact Step.logical kind (walked _ _ _ _ child)
  | quantifier kind child => exact Step.quantifier kind (walked _ _ _ _ child)
  | pagination kind => exact Step.pagination kind
  | stringMatch kind => exact Step.stringMatch kind
  | membership kind parent => exact Step.membership kind parent
  | comparison kind parent => exact Step.comparison kind parent
  | field kind last found leafType => exact Step.field kind last found leafType
  | enum kind last none isEnum => exact Step.enum kind last none isEnum
  | relation kind found leafType related =>
      exact Step.relation kind found leafType (related.mono nested)
  | plain kind more followed free child =>
      exact Step.plain kind more followed free (walked _ _ _ _ child)

/-- A segment that is no operator is a leaf, a relation or a step on the way. -/
theorem Step.of_plain {context : Context} {change : Option FieldOverride}
    {Nested : String → String → Bool → Tree → Prop}
    {Walked : Option String → String → String → Tree → Prop}
    {segment : String} {rest : List String} {previous : Option String} {scope here : String}
    {value : Tree} (kind : Operator.ofKey? (Path.keyOf segment) = none)
    (step : Step context change Nested Walked segment rest previous scope here value) :
    (∃ isList expr, value = markList isList (.leaf expr) ∧
      ∀ field, context.registry.field? scope (Path.keyOf segment) = some field →
        context.isLeafType field.typeTag = true) ∨
    (∃ field, context.registry.field? scope (Path.keyOf segment) = some field ∧
      context.isLeafType field.typeTag = false ∧
      Related context Nested field (Path.endsInMarker segment) here value) ∨
    ∃ next child, followed? context scope (Path.keyOf segment) = some next ∧
      (∀ field, context.registry.field? scope (Path.keyOf segment) = some field →
        context.isLeafType field.typeTag = false → allowedOperations context here = []) ∧
      Walked (some segment) next here child ∧
      value = markList (Path.endsInMarker segment) child := by
  have never : ∀ operator, Operator.ofKey? (Path.keyOf segment) ≠ some operator := by
    intro operator found
    rw [kind] at found
    cases found
  cases step with
  | logical operator _ => exact absurd operator (never _)
  | quantifier operator _ => exact absurd operator (never _)
  | pagination operator => exact absurd operator (never _)
  | stringMatch operator => exact absurd operator (never _)
  | membership operator _ => exact absurd operator (never _)
  | comparison operator _ => exact absurd operator (never _)
  | @field field _ _ found leafType =>
      refine Or.inl ⟨_, _, rfl, ?_⟩
      intro other same
      rw [found] at same
      rw [← Option.some.inj same]
      exact leafType
  | enum _ _ absent _ =>
      refine Or.inl ⟨_, _, rfl, ?_⟩
      intro other found
      rw [absent] at found
      cases found
  | relation _ found leafType related => exact Or.inr (Or.inl ⟨_, found, leafType, related⟩)
  | plain _ _ followed free child => exact Or.inr (Or.inr ⟨_, _, followed, free, child, rfl⟩)

theorem nestedWithin_succ (context : Context) (depth : Nat) (target path : String) (skip : Bool) :
    nestedWithin context (depth + 1) target path skip =
      ((chosen context path skip).mapM fun descendant =>
        walk context (nestedWithin context depth) descendant.entry.change? descendant.remaining
          none target path).map
        fun found => (found.filterMap id).foldl Tree.merge .emptyObject :=
  rfl

theorem nestedWithin_succ_eq_ok {context : Context} {depth : Nat} {target path : String}
    {skip : Bool} {tree : Tree}
    (found : nestedWithin context (depth + 1) target path skip = .ok tree) :
    ∃ results,
      List.Forall₂ (fun descendant result =>
        walk context (nestedWithin context depth) descendant.entry.change? descendant.remaining
          none target path = .ok result) (chosen context path skip) results ∧
      tree = (results.filterMap id).foldl Tree.merge .emptyObject := by
  rw [nestedWithin_succ] at found
  obtain ⟨results, walked, merged⟩ := Outcome.map_eq_ok_iff.mp found
  exact ⟨results, Outcome.mapM_eq_ok_iff.mp walked, merged.symm⟩

/-- Each tree among the results is the result of some input. -/
theorem exists_input_of_mem {α : Type} {Gives : α → Option Tree → Prop} {inputs : List α}
    {results : List (Option Tree)} (all : List.Forall₂ Gives inputs results) {tree : Tree}
    (member : tree ∈ results.filterMap id) : ∃ input ∈ inputs, Gives input (some tree) := by
  have listed : some tree ∈ results := by simpa using member
  induction all with
  | nil => cases listed
  | @cons input result inputs results here later induction =>
      rcases List.mem_cons.mp listed with same | listed
      · exact ⟨input, List.mem_cons_self, same ▸ here⟩
      · obtain ⟨other, inside, gives⟩ := induction (by simpa using listed) listed
        exact ⟨other, List.mem_cons_of_mem _ inside, gives⟩

section Induction

variable {context : Context}
  (Walked : Option FieldOverride → List String → Option String → String → String → Tree → Prop)
  (Nested : String → String → Bool → Tree → Prop)
  (step : ∀ {change segment rest previous model path value},
    context.isAllowed (Path.child path (Path.keyOf segment)) = true →
    Step context change Nested (Walked change rest) segment rest previous
      (scopeAt context model path) (Path.child path (Path.keyOf segment)) value →
    Walked change (segment :: rest) previous model path (.single (Path.keyOf segment) value))

include step

theorem walked_of_walk {nested : Nesting}
    (below : ∀ target path skip tree, nested target path skip = .ok tree →
      Nested target path skip tree)
    {change : Option FieldOverride} {segments : List String} {previous : Option String}
    {model path : String} {tree : Tree}
    (walked : walk context nested change segments previous model path = .ok (some tree)) :
    Walked change segments previous model path tree := by
  induction segments generalizing previous model path tree with
  | nil => cases Except.ok.inj walked
  | cons segment rest induction =>
      obtain ⟨allowed, value, same, taken⟩ := step_of_walk walked
      rw [same]
      exact step allowed (taken.mono below fun _ _ _ _ => induction)

/-- What each step and each merge of entries keeps holds of every tree, however deep relations
nest. -/
theorem walk_induction
    (entries : ∀ {target path skip} {trees : List Tree},
      (∀ tree ∈ trees, ∃ descendant ∈ chosen context path skip,
        Walked descendant.entry.change? descendant.remaining none target path tree) →
      Nested target path skip (trees.foldl Tree.merge .emptyObject))
    {depth : Nat} {change : Option FieldOverride} {segments : List String}
    {previous : Option String} {model path : String} {tree : Tree}
    (walked : walk context (nestedWithin context depth) change segments previous model path =
      .ok (some tree)) :
    Walked change segments previous model path tree := by
  have below : ∀ target path skip tree, nestedWithin context depth target path skip = .ok tree →
      Nested target path skip tree := by
    clear walked
    induction depth with
    | zero =>
        intro target path skip tree found
        cases found
    | succ depth induction =>
        intro target path skip tree found
        obtain ⟨results, all, merged⟩ := nestedWithin_succ_eq_ok found
        rw [merged]
        apply entries
        intro tree member
        obtain ⟨descendant, inside, walked⟩ := exists_input_of_mem all member
        exact ⟨descendant, inside, walked_of_walk Walked Nested step induction walked⟩
  exact walked_of_walk Walked Nested step below walked

end Induction

end Synthesis

end ScopedSchema
