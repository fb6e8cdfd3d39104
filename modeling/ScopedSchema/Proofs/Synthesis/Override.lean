import ScopedSchema.Proofs.AllowList
import ScopedSchema.Proofs.Synthesis.Contribution
import ScopedSchema.Proofs.Synthesis.Coverage
import ScopedSchema.Proofs.Tree.Masked

/-!
# An override stays at its path

The type and the message of an entry are used for the leaf at the end of its path and nowhere else.
Two allow lists that differ in one override give schemas of the same shape, with the same text at
every leaf that does not stand at the path of that entry. Paths are compared here without list
markers. One marker inside another is not dropped with it, so the key of a relation may be read once
more as a shorter one; an entry below the shorter key then stands below the relation as well.
-/

namespace ScopedSchema

/-- The entries have one path. Where their overrides differ, that path has these keys. -/
structure AllowEntry.Revised (place : List String) (entry entry' : AllowEntry) : Prop where
  path : entry'.path = entry.path
  change : entry'.change? = entry.change? ∨ entry.keys = place

theorem AllowEntry.Revised.keys {place : List String} {entry entry' : AllowEntry}
    (revised : entry.Revised place entry') : entry'.keys = entry.keys := by
  rw [AllowEntry.keys, AllowEntry.keys, revised.path]

theorem AllowEntry.Revised.segments {place : List String} {entry entry' : AllowEntry}
    (revised : entry.Revised place entry') : entry'.segments = entry.segments := by
  rw [AllowEntry.segments, AllowEntry.segments, revised.path]

/-- What remains of the entries is the same. Where their overrides differ, the whole path has the
keys of the place. -/
structure Descendant.Revised (place keys : List String) (descendant descendant' : Descendant) :
    Prop where
  remaining : descendant'.remaining = descendant.remaining
  remainingKeys : descendant'.remainingKeys = descendant.remainingKeys
  change : descendant'.entry.change? = descendant.entry.change? ∨
    keys ++ descendant.remainingKeys = place

namespace AllowList

/-- The same paths in the same order. Only overrides of entries with these keys may differ. -/
def Revised (place : List String) (list list' : AllowList) : Prop :=
  List.Forall₂ (AllowEntry.Revised place) list.entries list'.entries

variable {place : List String} {list list' : AllowList} (revised : list.Revised place list')

include revised

theorem Revised.isAllowed (path : String) : list'.isAllowed path = list.isAllowed path := by
  have keys : list'.entries.map AllowEntry.keys = list.entries.map AllowEntry.keys := by
    unfold Revised at revised
    generalize list.entries = entries, list'.entries = entries' at revised
    induction revised with
    | nil => rfl
    | cons here _ induction => rw [List.map_cons, List.map_cons, here.keys, induction]
  exact isAllowed_of_perm (by rw [keys]) path

theorem Revised.depth : list'.depth = list.depth := by
  unfold AllowList.depth
  unfold Revised at revised
  generalize list.entries = entries, list'.entries = entries', 0 = bound at revised
  induction revised generalizing bound with
  | nil => rfl
  | cons here _ induction =>
      rw [List.foldl_cons, List.foldl_cons, here.segments]
      exact induction _

/-- Below a path the lists have the same rests of entries. -/
theorem Revised.descendants (path : String) :
    List.Forall₂ (Descendant.Revised place (Path.keys path)) (list.descendants path)
      (list'.descendants path) := by
  have kept : List.Forall₂ (AllowEntry.Revised place)
      (list.entries.filter fun entry => entry.isBelow (Path.keys path))
      (list'.entries.filter fun entry => entry.isBelow (Path.keys path)) := by
    refine List.rel_filter ?_ revised
    intro entry entry' here
    simp only [AllowEntry.isBelow, here.keys]
  have below : ∀ entry ∈ list.entries.filter fun entry => entry.isBelow (Path.keys path),
      entry.isBelow (Path.keys path) = true := fun _ member => (List.mem_filter.mp member).2
  unfold AllowList.descendants
  rw [List.forall₂_map_left_iff, List.forall₂_map_right_iff]
  refine ((List.forall₂_and_left _ _).mpr ⟨below, kept⟩).imp ?_
  intro entry entry' both
  obtain ⟨goesOn, here⟩ := both
  obtain ⟨key, others, split⟩ := AllowEntry.isBelow_iff.mp goesOn
  refine ⟨?_, ?_, here.change.imp id fun own => ?_⟩
  · simp only [here.segments]
  · simp only [here.keys]
  · rw [← own, split, List.drop_left]

end AllowList

namespace Synthesis

open ScopedSchema.Tree

/-! ## The leaves at a place -/

/-- The keys below `path` that lead on to the place, where each key is read as a name. -/
def leadsTo (read : String → String) (place : List String) (path : String) (keys : List String) :
    Bool :=
  Path.joined ((Path.keys path ++ keys).map read) == Path.joined (place.map read)

/-- The key of the segment, taken as a path, is read like the key itself. -/
def ReadAlone (read : String → String) (segment : String) : Prop :=
  (Path.keys (Path.keyOf segment)).map read = [read (Path.keyOf segment)]

variable {read : String → String} {place : List String}

theorem leadsTo_root (blank : read "" = "") (keys : List String) :
    leadsTo read place "" keys = (Path.joined (keys.map read) == Path.joined (place.map read)) := by
  have root : Path.keys "" = [""] := by rfl
  rw [leadsTo, root, List.singleton_append, List.map_cons, blank, Path.joined, List.foldl_cons,
    Path.child_empty, ← Path.joined]

/-- A step along a segment is a step towards the same place. -/
theorem leadsTo_child (blank : read "" = "") {segment : String} (alone : ReadAlone read segment)
    (path : String) (keys : List String) :
    leadsTo read place path (Path.keyOf segment :: keys) =
      leadsTo read place (Path.child path (Path.keyOf segment)) keys := by
  unfold ReadAlone at alone
  by_cases root : path = ""
  · rw [root, Path.child_empty, leadsTo_root blank, leadsTo, List.map_append, alone]
    rfl
  · rw [leadsTo, leadsTo, Path.keys_child root]
    simp only [List.map_append, List.append_assoc, alone, List.map_cons, List.singleton_append]

/-- The outcomes are the same but for the text of hidden leaves. -/
def MaskedAlike (hidden : List String → Bool) (first second : Contribution) : Prop :=
  second.map (Option.map (masked hidden)) = first.map (Option.map (masked hidden))

theorem maskedAlike_some_iff {hidden : List String → Bool}
    {first second : Except GenerationError Tree} :
    MaskedAlike hidden (first.map some) (second.map some) ↔
      second.map (masked hidden) = first.map (masked hidden) := by
  unfold MaskedAlike
  cases first <;> cases second <;> simp [Except.map]

theorem maskedAlike_map {hidden outer : List String → Bool} {change change' : Tree → Tree}
    (commutes : ∀ tree, masked outer (change tree) = change' (masked hidden tree))
    {first second : Contribution} (alike : MaskedAlike hidden first second) :
    MaskedAlike outer (first.map (Option.map change)) (second.map (Option.map change)) := by
  have moved : ∀ outcome : Contribution,
      (outcome.map (Option.map change)).map (Option.map (masked outer)) =
        (outcome.map (Option.map (masked hidden))).map (Option.map change') := by
    intro outcome
    cases outcome with
    | error problem => rfl
    | ok found =>
        cases found with
        | none => rfl
        | some tree => simp only [Except.map, Option.map_some, commutes]
  unfold MaskedAlike at alike ⊢
  rw [moved, moved, alike]

theorem maskedAlike_place (hidden : List String → Bool) : PlaceCoupling (MaskedAlike hidden) where
  nothing := rfl
  leaf := fun _ => rfl
  around := by
    intro change first second around alike
    cases around with
    | listOf => exact maskedAlike_map (masked_listOf hidden) alike
    | nullable => exact maskedAlike_map (masked_asOptional hidden) alike
    | operations _ => exact maskedAlike_map (masked_merge hidden _) alike

theorem maskedAlike_single (hidden : List String → Bool) (key : String)
    {first second : Contribution}
    (alike : MaskedAlike (fun keys => hidden (key :: keys)) first second) :
    MaskedAlike hidden (first.map (Option.map (single key)))
      (second.map (Option.map (single key))) :=
  maskedAlike_map (masked_single hidden key) alike

/-- Merges of trees that are the same but for hidden leaves. -/
theorem maskedAlike_merge {α β : Type} {hidden : List String → Bool} {run : α → Contribution}
    {run' : β → Contribution} {inputs : List α} {inputs' : List β}
    (each : List.Forall₂ (fun input input' => MaskedAlike hidden (run input) (run' input')) inputs
      inputs') :
    MaskedAlike hidden
      (((inputs.mapM run).map fun found => (found.filterMap id).foldl merge .emptyObject).map some)
      (((inputs'.mapM run').map fun found =>
        (found.filterMap id).foldl merge .emptyObject).map some) := by
  have moved : ∀ {γ : Type} (run : γ → Contribution) (inputs : List γ),
      (((inputs.mapM run).map fun found =>
        (found.filterMap id).foldl merge .emptyObject).map some).map
          (Option.map (masked hidden)) =
      ((inputs.mapM fun input => (run input).map (Option.map (masked hidden))).map fun found =>
        (found.filterMap id).foldl merge .emptyObject).map some := by
    intro γ run inputs
    rw [← Outcome.map_mapM]
    cases inputs.mapM run with
    | error problem => rfl
    | ok found =>
        simp only [Except.map, Option.map_some, masked_foldl_merge, masked_emptyObject,
          List.map_filterMap, List.filterMap_map]
        rfl
  unfold MaskedAlike at each ⊢
  rw [moved, moved, Outcome.mapM_eq_of_forall₂ (each.imp fun _ _ same => same.symm)]

/-! ## Two walks -/

section Walks

variable {context : Context} {allow : AllowList} (revised : context.allow.Revised place allow)

include revised

theorem agreesOn_revised : context.AgreesOn allow fun _ => True :=
  Context.AgreesOn.everywhere revised.isAllowed

theorem listedLiterals_revised (path : String) :
    listedLiterals (context.withAllow allow) path = listedLiterals context path := by
  have literals : (allow.descendants path).map Descendant.remainingKeys =
      (context.allow.descendants path).map Descendant.remainingKeys := by
    have paired := revised.descendants path
    generalize context.allow.descendants path = listed, allow.descendants path = listed' at paired
    induction paired with
    | nil => rfl
    | cons here _ induction => rw [List.map_cons, List.map_cons, induction, here.remainingKeys]
  have mapped : ∀ listed : List Descendant,
      (listed.map fun descendant =>
        ".".intercalate (descendant.remainingKeys.filter fun key => !key.isEmpty)) =
      (listed.map Descendant.remainingKeys).map fun keys =>
        ".".intercalate (keys.filter fun key => !key.isEmpty) := by
    intro listed
    rw [List.map_map]
    rfl
  have descendants : (context.withAllow allow).allow.descendants path = allow.descendants path :=
    rfl
  rw [listedLiterals, listedLiterals, descendants, mapped, mapped, literals]

/-- Two leaves that differ in their overrides only, and not at all unless they are hidden. -/
theorem maskedAlike_leaf {change change' : Option FieldOverride} {path : String}
    (own : change' = change ∨ leadsTo read place path [] = true) (isOptional isList : Bool)
    (tag : String) :
    MaskedAlike (leadsTo read place path)
      (.ok (some (leaf context change isOptional isList tag path)))
      (.ok (some (leaf (context.withAllow allow) change' isOptional isList tag path))) := by
  rcases own with same | hidden
  · rw [same]
    exact (maskedAlike_place _).leafValue (agreesOn_revised revised) trivial change isOptional
      isList tag
  · have blanked : ∀ expr, MaskedAlike (leadsTo read place path) (.ok (some (.leaf .any)))
        (.ok (some (.leaf expr))) := by
      intro expr
      simp [MaskedAlike, Except.map, hidden]
    have both : ∀ expr expr', MaskedAlike (leadsTo read place path) (.ok (some (.leaf expr)))
        (.ok (some (.leaf expr'))) := by
      intro expr expr'
      exact (blanked expr').trans (blanked expr).symm
    exact (maskedAlike_place _).markList isList (both _ _)

variable (blank : read "" = "")

include blank

theorem maskedAlike_walk {nested nested' : Nesting}
    (below : ∀ target path skip, MaskedAlike (leadsTo read place path)
      ((nested target path skip).map some) ((nested' target path skip).map some))
    {change change' : Option FieldOverride} {segments : List String}
    (alone : ∀ segment ∈ segments, ReadAlone read segment) {path : String}
    (own : change' = change ∨ leadsTo read place path (segments.map Path.keyOf) = true)
    (previous : Option String) (model : String) :
    MaskedAlike (leadsTo read place path) (walk context nested change segments previous model path)
      (walk (context.withAllow allow) nested' change' segments previous model path) := by
  induction segments generalizing path previous model with
  | nil => rfl
  | cons segment rest induction =>
      obtain ⟨here, later⟩ := List.forall_mem_cons.mp alone
      have further : leadsTo read place (Path.child path (Path.keyOf segment)) =
          fun keys => leadsTo read place path (Path.keyOf segment :: keys) := by
        funext keys
        exact (leadsTo_child blank here path keys).symm
      rw [List.map_cons, leadsTo_child blank here] at own
      apply (maskedAlike_place (leadsTo read place (Path.child path (Path.keyOf segment)))).step
        (agreesOn_revised revised) (fun _ => listedLiterals_revised revised _)
      · rfl
      · intro first second alike
        rw [further] at alike
        exact maskedAlike_single _ _ alike
      · trivial
      · intro target skip
        exact below target _ skip
      · intro last isOptional tag
        rw [last, List.map_nil] at own
        exact maskedAlike_leaf revised own isOptional _ tag
      · intro previous model
        exact induction later own previous model

variable
  (alone : ∀ entry ∈ context.allow.entries, ∀ segment ∈ entry.segments, ReadAlone read segment)

include alone

theorem maskedAlike_nestedWithin (depth : Nat) (target path : String) (skip : Bool) :
    MaskedAlike (leadsTo read place path) ((nestedWithin context depth target path skip).map some)
      ((nestedWithin (context.withAllow allow) depth target path skip).map some) := by
  induction depth generalizing target path skip with
  | zero => rfl
  | succ depth induction =>
      have kept : List.Forall₂ (Descendant.Revised place (Path.keys path))
          (chosen context path skip) (chosen (context.withAllow allow) path skip) := by
        refine List.rel_filter ?_ (revised.descendants path)
        intro descendant descendant' here
        simp only [here.remainingKeys]
      have listed : ∀ descendant ∈ chosen context path skip,
          (∀ segment ∈ descendant.remaining, ReadAlone read segment) ∧
            descendant.remaining.map Path.keyOf = descendant.remainingKeys := by
        intro descendant member
        have below := (List.mem_filter.mp member).1
        refine ⟨?_, AllowList.map_keyOf_remaining below⟩
        obtain ⟨entry, inside, _, same⟩ := AllowList.mem_descendants_iff.mp below
        rw [same]
        exact fun segment later => alone entry inside segment (List.mem_of_mem_drop later)
      rw [nestedWithin_succ, nestedWithin_succ]
      refine maskedAlike_merge (((List.forall₂_and_left _ _).mpr ⟨listed, kept⟩).imp ?_)
      intro descendant descendant' both
      obtain ⟨⟨readAlone, keys⟩, here⟩ := both
      rw [here.remaining]
      refine maskedAlike_walk revised blank induction readAlone
        (here.change.imp id fun own => ?_) none target
      rw [← own, ← keys]
      exact beq_self_eq_true _

theorem maskedAlike_contribution {entry entry' : AllowEntry}
    (member : entry ∈ context.allow.entries) (here : entry.Revised place entry') (model : String) :
    MaskedAlike (leadsTo read place "") (entry.contribution context model)
      (entry'.contribution (context.withAllow allow) model) := by
  have bound : nestingBound (context.withAllow allow) = nestingBound context := by
    have depth : (context.withAllow allow).allow.depth = context.allow.depth := revised.depth
    rw [nestingBound, depth]
    rfl
  unfold AllowEntry.contribution synthesize
  rw [bound, here.segments]
  refine maskedAlike_walk revised blank
    (maskedAlike_nestedWithin revised blank alone (nestingBound context)) (alone entry member)
    (here.change.imp id fun own => ?_) none model
  rw [leadsTo_root blank, ← own]
  exact beq_self_eq_true _

theorem maskedAlike_buildSchema (model : String) :
    MaskedAlike (leadsTo read place "") ((buildSchema context model).map some)
      ((buildSchema (context.withAllow allow) model).map some) := by
  have registered : (context.withAllow allow).registry.hasModel model =
      context.registry.hasModel model := rfl
  unfold buildSchema
  rw [registered]
  cases context.registry.hasModel model with
  | false =>
      simp only [Bool.false_eq_true, if_false]
      rfl
  | true =>
      simp only [if_true]
      have listed : ∀ entry ∈ context.allow.entries, entry ∈ context.allow.entries :=
        fun _ member => member
      refine maskedAlike_merge (((List.forall₂_and_left _ _).mpr ⟨listed, revised⟩).imp ?_)
      intro entry entry' both
      exact maskedAlike_contribution revised blank alone both.1 both.2 model

end Walks

end Synthesis

/-! ## One override -/

namespace AllowList

theorem revised_refl {place : List String} (entries : List AllowEntry) :
    List.Forall₂ (AllowEntry.Revised place) entries entries :=
  List.forall₂_same.mpr fun _ _ => ⟨rfl, Or.inl rfl⟩

/-- Another override for the entry between the others. -/
theorem revised_of_path_eq {entry entry' : AllowEntry} (path : entry'.path = entry.path)
    (before after : List AllowEntry) :
    Revised entry.keys ⟨before ++ entry :: after⟩ ⟨before ++ entry' :: after⟩ :=
  List.rel_append (revised_refl before) (List.Forall₂.cons ⟨path, Or.inr rfl⟩ (revised_refl after))

end AllowList

/-- The keys lead to the place of the entry, where each key is read as a name. -/
def AllowEntry.stands (entry : AllowEntry) (read : String → String) (keys : List String) : Bool :=
  Path.joined (keys.map read) == Path.joined (entry.keys.map read)

/-- What the override of an entry says does not show in a schema but in the leaves at the path of
the entry, list markers aside. Keys without markers inside each other need no such allowance. -/
theorem buildSchema_override (context : Context) (model : String) (before after : List AllowEntry)
    {entry entry' : AllowEntry} (path : entry'.path = entry.path) :
    (buildSchema (context.withAllow ⟨before ++ entry' :: after⟩) model).map
        (Tree.masked (entry.stands Path.bareOf)) =
      (buildSchema (context.withAllow ⟨before ++ entry :: after⟩) model).map
        (Tree.masked (entry.stands Path.bareOf)) ∧
    ((∀ other ∈ before ++ entry :: after, ∀ key ∈ other.keys, Path.MarkerFree key) →
      (buildSchema (context.withAllow ⟨before ++ entry' :: after⟩) model).map
          (Tree.masked (entry.stands id)) =
        (buildSchema (context.withAllow ⟨before ++ entry :: after⟩) model).map
          (Tree.masked (entry.stands id))) := by
  have revised : AllowList.Revised entry.keys
      (context.withAllow ⟨before ++ entry :: after⟩).allow ⟨before ++ entry' :: after⟩ :=
    AllowList.revised_of_path_eq path before after
  have schemas : ∀ read : String → String, read "" = "" →
      (∀ other ∈ before ++ entry :: after, ∀ segment ∈ other.segments,
        Synthesis.ReadAlone read segment) →
      (buildSchema (context.withAllow ⟨before ++ entry' :: after⟩) model).map
          (Tree.masked (entry.stands read)) =
        (buildSchema (context.withAllow ⟨before ++ entry :: after⟩) model).map
          (Tree.masked (entry.stands read)) := by
    intro read blank alone
    have alike := Synthesis.maskedAlike_buildSchema revised blank alone model
    have root : Synthesis.leadsTo read entry.keys "" = entry.stands read :=
      funext (Synthesis.leadsTo_root blank)
    rw [root] at alike
    exact Synthesis.maskedAlike_some_iff.mp alike
  constructor
  · refine schemas Path.bareOf rfl fun other _ segment member => ?_
    rw [Synthesis.ReadAlone, Path.keys_keyOf member, List.map_singleton, Path.bareOf_keyOf]
  · intro free
    refine schemas id rfl fun other listed segment member => ?_
    have key : Path.MarkerFree (Path.keyOf segment) :=
      free other listed _ (List.mem_map_of_mem member)
    rw [Synthesis.ReadAlone, Path.keys_keyOf member, Path.keyOf_of_markerFree key,
      List.map_singleton]

/-- Posts with an entry for their title. -/
def titledPosts (title : AllowEntry) : Context := blog.withAllow ⟨[.bare "id"] ++ title :: []⟩

def titledSchema (title : Expr) : Tree := .object [("id", .leaf .string), ("title", .leaf title)]

theorem buildSchema_override_titledPosts :
    (AllowEntry.override "title" { type := some (.named "email") }).path =
        (AllowEntry.bare "title").path ∧
      (∀ other ∈ [.bare "id"] ++ .bare "title" :: [], ∀ key ∈ AllowEntry.keys other,
        Path.MarkerFree key) ∧
      buildSchema (titledPosts (.bare "title")) "post" = .ok (titledSchema .string) ∧
      buildSchema (titledPosts (.override "title" { type := some (.named "email") })) "post" =
        .ok (titledSchema ⟨"z.string().email()"⟩) ∧
      (titledSchema ⟨"z.string().email()"⟩).masked ((AllowEntry.bare "title").stands id) =
        (titledSchema .string).masked ((AllowEntry.bare "title").stands id) := by
  have path : (AllowEntry.override "title" { type := some (.named "email") }).path =
      (AllowEntry.bare "title").path := rfl
  have free : ∀ other ∈ [.bare "id"] ++ .bare "title" :: [], ∀ key ∈ AllowEntry.keys other,
      Path.MarkerFree key := by
    decide +kernel
  have bare : buildSchema (titledPosts (.bare "title")) "post" = .ok (titledSchema .string) := by
    rfl
  have overridden : buildSchema
      (titledPosts (.override "title" { type := some (.named "email") })) "post" =
        .ok (titledSchema ⟨"z.string().email()"⟩) := by rfl
  have same := (buildSchema_override blog "post" [.bare "id"] [] path).2 free
  rw [← titledPosts, ← titledPosts, bare, overridden] at same
  exact ⟨path, free, bare, overridden, Except.ok.inj same⟩

/-- Keys with one marker inside another, which are shorter each time they are read as paths. -/
def foldedKeys (entry : AllowEntry) : Context where
  registry :=
    { models := ⟨[
        ("u", ⟨⟨[("[[]]", { typeTag := "p" })], by decide⟩⟩),
        ("p", ⟨⟨[("[]", { typeTag := "String" })], by decide⟩⟩)], by decide⟩
      enums := Table.empty }
  synonyms := Synonyms.empty
  allow := ⟨[.bare "[[[]]]"] ++ entry :: [.bare "[[]]."]⟩

def foldedSchema (value : Expr) : Tree :=
  .object [("[[]]", .object [("[]", .leaf value)])]

/-- The override of an entry shows at the leaf of another path, which the walk to the leaf and the
entry itself both read once more without markers. -/
theorem override_elsewhere_foldedKeys :
    buildSchema (foldedKeys (.bare "[[]].[[]]")) "u" = .ok (foldedSchema .string) ∧
      buildSchema (foldedKeys (.override "[[]].[[]]" { type := some (.named "email") })) "u" =
        .ok (foldedSchema ⟨"z.string().email()"⟩) ∧
      (∀ value, (foldedSchema value).NodeAt ["[[]]", "[]"] (.leaf value)) ∧
      Path.joined ["[[]]", "[]"] ≠ Path.joined (AllowEntry.bare "[[]].[[]]").keys ∧
      Path.keys (Path.joined ["[[]]", "[]"]) ≠
        Path.keys (Path.joined (AllowEntry.bare "[[]].[[]]").keys) := by
  refine ⟨by rfl, by rfl, ?_, by decide, by decide⟩
  intro value
  exact .deeper List.mem_cons_self (.member List.mem_cons_self)

end ScopedSchema
