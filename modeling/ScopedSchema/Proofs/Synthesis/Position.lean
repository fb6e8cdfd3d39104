import ScopedSchema.Proofs.Synthesis.Container

/-!
# The position of a container

Wherever an entry for a relation stands among the entries beneath it, the allow list allows the same
paths, and below the relation it holds the same entries in the same order. So the walks of both
lists go the same way. On their way they put the same around every tree, or a relation stops all of
them with the same tree; at the relation, the container is absorbed.
-/

namespace ScopedSchema

namespace Synthesis

open Outcome ScopedSchema.Tree

/-! ## Two positions of the container -/

section Positions

variable {context : Context} {allow : AllowList} {container : String}
  {before after before' after' : List String}
  (contains : Contains context container before after)
  (contains' : Contains (context.withAllow allow) container before' after')
  (same : before' ++ after' = before ++ after)

include contains contains' same

theorem isAllowed_of_contains (path : String) :
    allow.isAllowed path = context.allow.isAllowed path := by
  have listed : allow = .ofPaths (before' ++ container :: after') := contains'.listed
  have moved : (before' ++ container :: after').Perm (container :: (before' ++ after')) :=
    List.perm_middle
  have back : (container :: (before ++ after)).Perm (before ++ container :: after) :=
    List.perm_middle.symm
  rw [same] at moved
  apply AllowList.isAllowed_of_perm
  rw [listed, contains.listed]
  exact ((moved.trans back).map AllowEntry.bare).map AllowEntry.keys

theorem sharesOn_of_contains :
    SharesOn context allow (Path.Within (Path.segments container)) where
  below := Path.within_child
  allowed := fun _ => isAllowed_of_contains contains contains' same _
  descendants := by
    intro path inside
    have listed : allow.descendants path = _ := contains'.descendants_eq inside.2
    rw [listed, contains.descendants_eq inside.2, same]

variable {depth : Nat}

/-- The container, where it takes in the entries beneath it. -/
theorem mergeAlike_container (previous : Option String) {target place : String}
    {below below' : Tree} (isOptional : Bool) (filled : place ≠ "")
    (here : Path.keys place = Path.segments container)
    (ended : nestedWithin context depth target place false = .ok below)
    (ended' : nestedWithin (context.withAllow allow) depth target place false = .ok below') :
    MergeAlike True
      (treesFrom context depth container [] previous target place before ++
        nullableIf isOptional below ::
          treesFrom context depth container [] previous target place after)
      (treesFrom (context.withAllow allow) depth container [] previous target place before' ++
        nullableIf isOptional below' ::
          treesFrom (context.withAllow allow) depth container [] previous target place after') := by
  have shares := sharesOn_of_contains contains contains' same
  have trees : treesFrom (context.withAllow allow) depth container [] previous target place
      (before' ++ after') =
      treesFrom context depth container [] previous target place (before ++ after) := by
    rw [same]
    apply List.filterMap_congr
    intro entry member
    obtain ⟨key, rest, split, _⟩ := contains.exists_beyond member
    have inside : Path.Within (Path.segments container) (Path.child place (Path.keyOf key)) :=
      Path.within_child ⟨filled, here ▸ List.prefix_refl _⟩ _
    rw [List.nil_append, split, shares.walk inside]
  have first := contains.alike_joined previous isOptional here ended
  have second := contains'.alike_joined previous isOptional here ended'
  rw [trees] at second
  exact ⟨by simp, by simp, first.symm.trans second⟩

/-- A relation that stops the walks to the container takes in the same entries in both lists. -/
theorem nestedWithin_of_stops {place : String} {names rest : List String} (filled : place ≠ "")
    (here : Path.keys place = names) (split : Path.segments container = names ++ rest)
    (stops : allowedOperations context place ≠ []) (target : String) :
    nestedWithin (context.withAllow allow) depth target place true =
      nestedWithin context depth target place true := by
  cases rest with
  | nil =>
      rw [List.append_nil] at split
      have inside : Path.Within (Path.segments container) place :=
        ⟨filled, by rw [here, split]⟩
      exact (sharesOn_of_contains contains contains' same).nestedWithin inside depth target true
  | cons key rest =>
      have agrees := isAllowed_of_contains contains contains' same
      have stops' : allowedOperations (context.withAllow allow) place ≠ [] := by
        rw [allowedOperations_withAllow agrees]
        exact stops
      cases depth with
      | zero => rw [nestedWithin, nestedWithin]
      | succ depth =>
          rw [nestedWithin_succ, nestedWithin_succ, contains.chosen_eq_nil filled here split stops,
            contains'.chosen_eq_nil filled here split stops', List.mapM_nil, List.mapM_nil]

section Step

variable {segment : String} {rest : List String} {previous : Option String} {model path : String}
  (ends : Ends (walk context (nestedWithin context depth) none (segment :: rest) previous model
    path))
  (ends' : Ends (walk (context.withAllow allow) (nestedWithin (context.withAllow allow) depth) none
    (segment :: rest) previous model path))

include ends ends'

omit contains contains' same in
/-- A step that puts the same around all trees leaves it to the segments behind it. -/
theorem mergeAlike_behind {previous' : Option String} {model' path' : String} {change : Tree → Tree}
    (each : ∀ later,
      walk context (nestedWithin context depth) none (segment :: (rest ++ later)) previous model
          path =
        (walk context (nestedWithin context depth) none (rest ++ later) previous' model' path').map
          (Option.map change))
    (each' : ∀ later,
      walk (context.withAllow allow) (nestedWithin (context.withAllow allow) depth) none
          (segment :: (rest ++ later)) previous model path =
        (walk (context.withAllow allow) (nestedWithin (context.withAllow allow) depth) none
          (rest ++ later) previous' model' path').map (Option.map change))
    (kept : ∀ {trees trees' : List Tree}, MergeAlike True trees trees' →
      MergeAlike True (trees.map change) (trees'.map change))
    (behind : Ends (walk context (nestedWithin context depth) none rest previous' model' path') →
      Ends (walk (context.withAllow allow) (nestedWithin (context.withAllow allow) depth) none rest
        previous' model' path') →
      MergeAlike True
        (treesFrom context depth container rest previous' model' path'
          (before ++ container :: after))
        (treesFrom (context.withAllow allow) depth container rest previous' model' path'
          (before' ++ container :: after'))) :
    MergeAlike True
      (treesFrom context depth container (segment :: rest) previous model path
        (before ++ container :: after))
      (treesFrom (context.withAllow allow) depth container (segment :: rest) previous model path
        (before' ++ container :: after')) := by
  have last := each []
  have last' := each' []
  rw [List.append_nil] at last last'
  rw [last, ends_map_iff] at ends
  rw [last', ends_map_iff] at ends'
  have first : treesFrom context depth container (segment :: rest) previous model path
      (before ++ container :: after) = _ :=
    treesFrom_eq_map fun entry _ => each (beyond container entry)
  have second : treesFrom (context.withAllow allow) depth container (segment :: rest) previous model
      path (before' ++ container :: after') = _ :=
    treesFrom_eq_map fun entry _ => each' (beyond container entry)
  rw [first, second]
  exact kept (behind ends ends')

variable {names : List String} {field : Field} (filled : Path.child path (Path.keyOf segment) ≠ "")
  (here : Path.keys (Path.child path (Path.keyOf segment)) = names)
  (allowed : context.isAllowed (Path.child path (Path.keyOf segment)) = true)
  (kind : Operator.ofKey? (Path.keyOf segment) = none)
  (found : context.registry.field? (scopeAt context model path) (Path.keyOf segment) = some field)
  (related : context.isLeafType field.typeTag = false)

include filled here allowed kind found related

omit ends' in
/-- A relation that stops the walks gives the same tree to all of them. -/
theorem mergeAlike_of_stops (split : Path.segments container = names ++ rest)
    (stops : context.resolveModel? field.typeTag = none ∨
      allowedOperations context (Path.child path (Path.keyOf segment)) ≠ []) :
    MergeAlike True
      (treesFrom context depth container (segment :: rest) previous model path
        (before ++ container :: after))
      (treesFrom (context.withAllow allow) depth container (segment :: rest) previous model path
        (before' ++ container :: after')) := by
  have agrees := isAllowed_of_contains contains contains' same
  have allowed' : (context.withAllow allow).isAllowed (Path.child path (Path.keyOf segment)) =
      true := (agrees _).trans allowed
  have stops' : (context.withAllow allow).resolveModel? field.typeTag = none ∨
      allowedOperations (context.withAllow allow) (Path.child path (Path.keyOf segment)) ≠ [] := by
    rw [allowedOperations_withAllow agrees]
    exact stops
  have below : allowedOperations context (Path.child path (Path.keyOf segment)) ≠ [] → ∀ target,
      nestedWithin (context.withAllow allow) depth target (Path.child path (Path.keyOf segment))
          true =
        nestedWithin context depth target (Path.child path (Path.keyOf segment)) true :=
    nestedWithin_of_stops contains contains' same filled here split
  have equal := relation_withAllow_of_stops agrees stops below (Path.endsInMarker segment)
  rw [walk_of_stops allowed kind found related stops, ends_map_iff, ends_map_iff] at ends
  obtain ⟨tree, ended⟩ := ends
  have value : ∀ later, walk context (nestedWithin context depth) none (segment :: later) previous
      model path = .ok (some (single (Path.keyOf segment) tree)) := by
    intro later
    rw [walk_of_stops allowed kind found related stops, ended]
    rfl
  have value' : ∀ later, walk (context.withAllow allow)
      (nestedWithin (context.withAllow allow) depth) none (segment :: later) previous model path =
        .ok (some (single (Path.keyOf segment) tree)) := by
    intro later
    rw [walk_of_stops allowed' kind found related stops', equal, ended]
    rfl
  have length := congrArg List.length same
  rw [List.length_append, List.length_append] at length
  apply MergeAlike.constant
  · exact fun entry => congrArg found? (value (rest ++ beyond container entry))
  · exact fun entry => congrArg found? (value' (rest ++ beyond container entry))
  · simp only [List.length_append, List.length_cons]
    omega
  · simp

end Step

/-- A relation that does not stop the walks takes in the entries beneath it. -/
theorem mergeAlike_of_entries {segment target : String} {previous : Option String}
    {model path : String} {field : Field}
    (filled : Path.child path (Path.keyOf segment) ≠ "")
    (here : Path.keys (Path.child path (Path.keyOf segment)) = Path.segments container)
    (unmarked : Path.endsInMarker segment = false)
    (kind : Operator.ofKey? (Path.keyOf segment) = none)
    (found : context.registry.field? (scopeAt context model path) (Path.keyOf segment) = some field)
    (related : context.isLeafType field.typeTag = false)
    (resolved : context.resolveModel? field.typeTag = some target)
    (free : allowedOperations context (Path.child path (Path.keyOf segment)) = [])
    (ends : Ends (walk context (nestedWithin context depth) none [segment] previous model path))
    (ends' : Ends (walk (context.withAllow allow) (nestedWithin (context.withAllow allow) depth)
      none [segment] previous model path)) :
    MergeAlike True
      (treesFrom context depth container [segment] previous model path
        (before ++ container :: after))
      (treesFrom (context.withAllow allow) depth container [segment] previous model path
        (before' ++ container :: after')) := by
  have agrees := isAllowed_of_contains contains contains' same
  have begins : Path.keys (Path.child path (Path.keyOf segment)) <+: Path.segments container := by
    rw [here]
  have free' : allowedOperations (context.withAllow allow) (Path.child path (Path.keyOf segment)) =
      [] := by
    rw [allowedOperations_withAllow agrees]
    exact free
  obtain ⟨below, ended, trees⟩ := contains.treesFrom_container (contains.isAllowed begins) unmarked
    kind found related resolved free ends
  obtain ⟨below', ended', trees'⟩ := contains'.treesFrom_container (contains'.isAllowed begins)
    unmarked kind found related resolved free' ends'
  rw [trees, trees']
  have alike := mergeAlike_container contains contains' same (some segment) field.isOptional filled
    here ended ended'
  exact alike.single _

/-- From every place on their way, the entries merge alike for both positions of the container. -/
theorem mergeAlike_treesFrom {segments names : List String} {previous : Option String}
    {model path : String} {field : Field} (spells : Path.Spells path names)
    (split : Path.segments container = names ++ segments)
    (resolved : relationAt? context segments previous model path = some field)
    (ends : Ends (walk context (nestedWithin context depth) none segments previous model path))
    (ends' : Ends (walk (context.withAllow allow) (nestedWithin (context.withAllow allow) depth)
      none segments previous model path)) :
    MergeAlike True
      (treesFrom context depth container segments previous model path
        (before ++ container :: after))
      (treesFrom (context.withAllow allow) depth container segments previous model path
        (before' ++ container :: after')) := by
  -- All entries begin with the segments of the container, so they take these steps together.
  induction segments generalizing previous model path names with
  | nil =>
      rw [relationAt?] at resolved
      cases resolved
  | cons segment rest induction =>
      obtain ⟨unmarked, split', filled, here⟩ := contains.plain.step spells split
      have spells' : Path.Spells (Path.child path (Path.keyOf segment))
          (names ++ [Path.keyOf segment]) := Or.inr ⟨filled, here⟩
      have begins :
          Path.keys (Path.child path (Path.keyOf segment)) <+: Path.segments container := by
        rw [here, split']
        exact List.prefix_append _ _
      have allowed := contains.isAllowed begins
      have allowed' := contains'.isAllowed begins
      rw [relationAt?] at resolved
      cases kind : Operator.ofKey? (Path.keyOf segment) with
      | some operator =>
          rw [kind] at resolved
          cases operator with
          | logical =>
              apply mergeAlike_behind ends ends' (fun _ => walk_of_logical allowed kind)
                (fun _ => walk_of_logical allowed' kind)
              · intro trees trees' alike
                rw [← List.map_map, ← List.map_map]
                exact alike.listOf.single _
              · exact induction spells' split' resolved
          | quantifier =>
              exact mergeAlike_behind ends ends' (fun _ => walk_of_quantifier allowed kind)
                (fun _ => walk_of_quantifier allowed' kind) (fun alike => alike.single _)
                (induction spells' split' resolved)
          | pagination => cases resolved
          | stringMatch => cases resolved
          | membership => cases resolved
          | comparison => cases resolved
      | none =>
          rw [kind] at resolved
          have agrees := isAllowed_of_contains contains contains' same
          rcases stops_or_goes_on context (scopeAt context model path) (Path.keyOf segment)
            (Path.child path (Path.keyOf segment)) with ⟨field, found, related, stops⟩ | goesOn
          · exact mergeAlike_of_stops contains contains' same ends filled here allowed kind
              found related split' stops
          · cases rest with
            | nil =>
                simp only [List.isEmpty_nil, if_true] at resolved
                obtain ⟨found, related⟩ := Option.filter_eq_some_iff.mp resolved
                have related : context.isLeafType field.typeTag = false := by simpa using related
                obtain ⟨free, target, registered⟩ := goesOn field found related
                rw [List.append_nil] at split'
                exact mergeAlike_of_entries contains contains' same filled (here.trans split'.symm)
                  unmarked kind found related registered free ends ends'
            | cons next rest =>
                simp only [List.isEmpty_cons, Bool.false_eq_true, if_false] at resolved
                obtain ⟨following, followed, resolved⟩ := Option.bind_eq_some_iff.mp resolved
                have free := fun field found related => (goesOn field found related).1
                exact mergeAlike_behind ends ends'
                  (fun _ => walk_of_descent allowed kind unmarked (by simp)
                    (descent_of_followed followed free false))
                  (fun _ => walk_of_descent allowed' kind unmarked (by simp)
                    (descent_withAllow_of_followed agrees followed free))
                  (fun alike => alike.single _) (induction spells' split' resolved)

end Positions

end Synthesis

open Synthesis

variable {context : Context} {model container : String} {before after before' after' : List String}

/-- An entry for a relation may stand anywhere among the entries beneath it: the schema is built at
every position and is the same up to the order of object keys. -/
theorem alike_buildSections_container {field : Field}
    (registered : context.registry.hasModel model = true) (plain : Path.Plain container)
    (resolved : relationAt? context (Path.segments container) none model "" = some field)
    (beneath : ∀ entry ∈ before ++ after, Path.Plain entry ∧ Beneath container entry)
    (same : before' ++ after' = before ++ after) :
    ∃ schema schema',
      buildSchema (context.withAllow (.ofPaths (before ++ container :: after))) model =
          .ok schema ∧
        buildSchema (context.withAllow (.ofPaths (before' ++ container :: after'))) model =
          .ok schema' ∧
        Tree.Alike True schema.joined schema'.joined ∧
        buildSections (context.withAllow (.ofPaths (before ++ container :: after))) model =
          .ok (sectionsOf schema.joined) ∧
        buildSections (context.withAllow (.ofPaths (before' ++ container :: after'))) model =
          .ok (sectionsOf schema'.joined) := by
  have contains : Contains (context.withAllow (.ofPaths (before ++ container :: after))) container
      before after := ⟨rfl, plain, beneath⟩
  have contains' : Contains ((context.withAllow (.ofPaths (before ++ container :: after))).withAllow
      (.ofPaths (before' ++ container :: after'))) container before' after' :=
    ⟨rfl, plain, same ▸ beneath⟩
  have deep := Nat.le_max_left
    (nestingBound (context.withAllow (.ofPaths (before ++ container :: after))))
    (nestingBound (context.withAllow (.ofPaths (before' ++ container :: after'))))
  have deep' := Nat.le_max_right
    (nestingBound (context.withAllow (.ofPaths (before ++ container :: after))))
    (nestingBound (context.withAllow (.ofPaths (before' ++ container :: after'))))
  have root : Path.Spells "" [] := Or.inl ⟨rfl, rfl⟩
  have found : relationAt? (context.withAllow (.ofPaths (before ++ container :: after)))
      (Path.segments container) none model "" = some field := by
    rw [relationAt?_withAllow, resolved]
  have alike := mergeAlike_treesFrom contains contains' same root (List.nil_append _).symm found
    (contains.walk_ends deep) (contains'.walk_ends deep')
  have built := contains.buildSchema_eq deep registered alike.filled
  have built' := contains'.buildSchema_eq deep' registered alike.filled'
  exact ⟨_, _, built, built', alike.merged, buildSections_of_buildSchema built,
    buildSections_of_buildSchema built'⟩

/-- Users who may have a friend. Of a friend, the own name and the name of a friend are known. -/
def friends : Context where
  registry :=
    { models := ⟨[
        ("user", ⟨⟨[("friend", { typeTag := "person", isOptional := true })], by decide⟩⟩),
        ("person", ⟨⟨[("friend", { typeTag := "String" }), ("name", { typeTag := "String" })],
          by decide⟩⟩)], by decide⟩
      enums := Table.empty }
  synonyms := Synonyms.empty
  allow := AllowList.empty

/-- Before the entries beneath it, the entry for the friend brings the name forward; behind them,
the comparison, which it does not take in, stays first. -/
theorem alike_buildSections_friends :
    friends.registry.hasModel "user" = true ∧ Path.Plain "friend" ∧
      relationAt? friends (Path.segments "friend") none "user" "" =
        some { typeTag := "person", isOptional := true } ∧
      (∀ entry ∈ [] ++ ["friend.equals", "friend.name"],
        Path.Plain entry ∧ Beneath "friend" entry) ∧
      ∃ schema schema',
        buildSchema (friends.withAllow (.ofPaths ["friend", "friend.equals", "friend.name"]))
            "user" = .ok schema ∧
          buildSchema (friends.withAllow (.ofPaths ["friend.equals", "friend.name", "friend"]))
            "user" = .ok schema' ∧
          Tree.Alike True schema.joined schema'.joined ∧
          buildSections (friends.withAllow (.ofPaths ["friend", "friend.equals", "friend.name"]))
            "user" = .ok (sectionsOf schema.joined) ∧
          buildSections (friends.withAllow (.ofPaths ["friend.equals", "friend.name", "friend"]))
            "user" = .ok (sectionsOf schema'.joined) := by
  have registered : friends.registry.hasModel "user" = true := by decide
  have plain : Path.Plain "friend" := by decide +kernel
  have resolved : relationAt? friends (Path.segments "friend") none "user" "" =
      some { typeTag := "person", isOptional := true } := by rfl
  have entries : ∀ entry ∈ ["friend.equals", "friend.name"], Path.Plain entry := by
    decide +kernel
  have beneath : ∀ entry ∈ [] ++ ["friend.equals", "friend.name"],
      Path.Plain entry ∧ Beneath "friend" entry := by
    intro entry member
    refine ⟨entries entry member, ?_⟩
    simp only [List.nil_append, List.mem_cons, List.not_mem_nil, or_false] at member
    rcases member with same | same
    · rw [same]
      exact ⟨"equals", [], by rfl, by decide⟩
    · rw [same]
      exact ⟨"name", [], by rfl, by decide⟩
  have moved : ["friend.equals", "friend.name"] ++ [] = [] ++ ["friend.equals", "friend.name"] :=
    rfl
  have alike := alike_buildSections_container registered plain resolved beneath moved
  simp only [List.nil_append, List.cons_append] at alike
  exact ⟨registered, plain, resolved, beneath, alike⟩

end ScopedSchema
