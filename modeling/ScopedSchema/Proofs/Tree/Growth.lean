import Mathlib.Logic.Relation
import ScopedSchema.Proofs.Tree.Member

/-!
# Trees that grow by what they hold already

Where entries are repeated, arrays repeat a block of their elements; where entries change places,
the members of objects may change places too. Merging keeps to such changes on either side, so a
merge of grown trees is a grown merge.
-/

namespace ScopedSchema

namespace Tree

/-- One change somewhere in a tree: a block of array elements is repeated behind itself or, if
members may be shuffled, the members of an object change places. -/
inductive Grows (shuffled : Prop) : Tree → Tree → Prop
  | again (before block after : List Tree) :
      Grows shuffled (.array (before ++ block ++ after))
        (.array (before ++ block ++ (block ++ after)))
  | element {before after : List Tree} {first second : Tree} :
      Grows shuffled first second →
      Grows shuffled (.array (before ++ first :: after)) (.array (before ++ second :: after))
  | member {before after : List (String × Tree)} {name : String} {first second : Tree} :
      Grows shuffled first second →
      Grows shuffled (.object (before ++ (name, first) :: after))
        (.object (before ++ (name, second) :: after))
  | inner {first second : Tree} :
      Grows shuffled first second → Grows shuffled (.optional first) (.optional second)
  | shuffle {members others : List (String × Tree)} :
      shuffled → members.Perm others → Grows shuffled (.object members) (.object others)

/-- Some changes, one after another. -/
def Grown (shuffled : Prop) : Tree → Tree → Prop := Relation.ReflTransGen (Grows shuffled)

variable {shuffled : Prop}

theorem Grows.distinct {first second : Tree} (step : Grows shuffled first second)
    (distinct : Distinct first) : Distinct second := by
  induction step with
  | again before block after =>
      cases distinct with
      | array all =>
          apply Distinct.array
          intro element member
          apply all
          simp only [List.mem_append] at member ⊢
          rcases member with (early | twice) | (twice | late)
          · exact Or.inl (Or.inl early)
          · exact Or.inl (Or.inr twice)
          · exact Or.inl (Or.inr twice)
          · exact Or.inr late
  | element _ induction =>
      cases distinct with
      | array all =>
          rw [List.forall_mem_append, List.forall_mem_cons] at all
          apply Distinct.array
          rw [List.forall_mem_append, List.forall_mem_cons]
          exact ⟨all.1, induction all.2.1, all.2.2⟩
  | member _ induction =>
      rw [distinct_object_iff] at distinct ⊢
      obtain ⟨nodup, all⟩ := distinct
      rw [List.forall_mem_append, List.forall_mem_cons] at all ⊢
      refine ⟨?_, all.1, induction all.2.1, all.2.2⟩
      simpa using nodup
  | inner _ induction =>
      cases distinct with
      | optional distinct => exact Distinct.optional (induction distinct)
  | shuffle _ same =>
      rw [distinct_object_iff] at distinct ⊢
      refine ⟨(same.map Prod.fst).nodup_iff.mp distinct.1, ?_⟩
      intro entry member
      exact distinct.2 entry (same.mem_iff.mpr member)

namespace Grown

theorem refl (tree : Tree) : Grown shuffled tree tree := Relation.ReflTransGen.refl

theorem single {first second : Tree} (step : Grows shuffled first second) :
    Grown shuffled first second :=
  Relation.ReflTransGen.single step

theorem trans {first second third : Tree} (early : Grown shuffled first second)
    (late : Grown shuffled second third) : Grown shuffled first third :=
  Relation.ReflTransGen.trans early late

theorem distinct {first second : Tree} (grown : Grown shuffled first second)
    (distinct : Distinct first) : Distinct second := by
  induction grown with
  | refl => exact distinct
  | tail _ step induction => exact step.distinct induction

theorem inner {first second : Tree} (grown : Grown shuffled first second) :
    Grown shuffled (.optional first) (.optional second) :=
  Relation.ReflTransGen.lift Tree.optional (fun _ _ => Grows.inner) _ _ grown

theorem element {first second : Tree} (before after : List Tree)
    (grown : Grown shuffled first second) :
    Grown shuffled (.array (before ++ first :: after)) (.array (before ++ second :: after)) :=
  Relation.ReflTransGen.lift (fun tree => Tree.array (before ++ tree :: after))
    (fun _ _ => Grows.element) _ _ grown

theorem member {first second : Tree} (before after : List (String × Tree)) (name : String)
    (grown : Grown shuffled first second) :
    Grown shuffled (.object (before ++ (name, first) :: after))
      (.object (before ++ (name, second) :: after)) :=
  Relation.ReflTransGen.lift (fun tree => Tree.object (before ++ (name, tree) :: after))
    (fun _ _ => Grows.member) _ _ grown

theorem asOptional {first second : Tree} (grown : Grown shuffled first second) :
    Grown shuffled first.asOptional second.asOptional := by
  induction grown with
  | refl => exact refl _
  | tail _ step induction =>
      apply induction.trans
      cases step with
      | again before block after => exact (single (Grows.again before block after)).inner
      | element step => exact (single (Grows.element step)).inner
      | member step => exact (single (Grows.member step)).inner
      | inner step => exact single (Grows.inner step)
      | shuffle allowed same => exact (single (Grows.shuffle allowed same)).inner

theorem mapCore {change change' : Tree → Tree} (tree : Tree)
    (grown : Grown shuffled (change tree.core) (change' tree.core)) :
    Grown shuffled (tree.mapCore change) (tree.mapCore change') := by
  induction tree using core.induct with
  | case1 wrapped induction =>
      rw [Tree.mapCore, Tree.mapCore]
      exact (induction grown).inner
  | case2 tree plain =>
      rw [mapCore.eq_2 change tree plain, mapCore.eq_2 change' tree plain]
      rw [core.eq_2 tree plain] at grown
      exact grown

end Grown

/-! ## Objects -/

/-- The names of the members are the same; shuffled members may have them in another order. -/
def SameNames (shuffled : Prop) (members others : List (String × Tree)) : Prop :=
  members.map Prod.fst = others.map Prod.fst ∨
    (shuffled ∧ (members.map Prod.fst).Perm (others.map Prod.fst))

theorem SameNames.perm {members others : List (String × Tree)}
    (same : SameNames shuffled members others) :
    (members.map Prod.fst).Perm (others.map Prod.fst) := by
  rcases same with equal | ⟨_, perm⟩
  · rw [equal]
  · exact perm

theorem sameNames_mergeMembers {left left' right right' : List (String × Tree)}
    (nodup : (left.map Prod.fst).Nodup) (nodup' : (right.map Prod.fst).Nodup)
    (first : SameNames shuffled left left') (second : SameNames shuffled right right') :
    SameNames shuffled (mergeMembers left right) (mergeMembers left' right') := by
  have grown := first.perm.nodup_iff.mp nodup
  have grown' := second.perm.nodup_iff.mp nodup'
  have shuffles : shuffled → SameNames shuffled (mergeMembers left right)
      (mergeMembers left' right') := by
    intro allowed
    refine Or.inr ⟨allowed, ?_⟩
    apply (List.perm_ext_iff_of_nodup (names_mergeMembers_nodup nodup nodup')
      (names_mergeMembers_nodup grown grown')).mpr
    intro name
    rw [mem_names_mergeMembers_iff, mem_names_mergeMembers_iff, first.perm.mem_iff,
      second.perm.mem_iff]
  rcases first with same | ⟨allowed, _⟩
  · rcases second with same' | ⟨allowed, _⟩
    · refine Or.inl ?_
      rw [names_mergeMembers nodup', names_mergeMembers grown', same, same']
    · exact shuffles allowed
  · exact shuffles allowed

/-- Members that keep their names and their order, and grow in their places. -/
theorem grown_object_of_forall₂ {members others : List (String × Tree)}
    (all : List.Forall₂ (fun entry other => entry.1 = other.1 ∧ Grown shuffled entry.2 other.2)
      members others) (done : List (String × Tree)) :
    Grown shuffled (.object (done ++ members)) (.object (done ++ others)) := by
  induction all generalizing done with
  | nil => exact Grown.refl _
  | @cons entry other members others here _ induction =>
      obtain ⟨name, first⟩ := entry
      obtain ⟨name', second⟩ := other
      obtain ⟨same, grown⟩ := here
      simp only at same grown
      subst same
      have changed := grown.member done members name
      have later := induction (done ++ [(name, second)])
      rw [List.append_assoc, List.append_assoc] at later
      exact changed.trans later

/-- An object grows where its members do, name by name. -/
theorem grown_object {members others : List (String × Tree)}
    (nodup : (members.map Prod.fst).Nodup) (names : SameNames shuffled members others)
    (values : ∀ name first second, members.lookup name = some first →
      others.lookup name = some second → Grown shuffled first second) :
    Grown shuffled (.object members) (.object others) := by
  -- First each member grows in its place, then the members change places.
  let fill (name : String) : String × Tree := (name, (others.lookup name).getD emptyObject)
  have nodup' := names.perm.nodup_iff.mp nodup
  have inPlace : List.Forall₂ (fun entry other =>
      entry.1 = other.1 ∧ Grown shuffled entry.2 other.2) members
      (members.map fun entry => fill entry.1) := by
    apply List.forall₂_map_right_iff.mpr
    apply List.forall₂_same.mpr
    intro entry member
    obtain ⟨name, first⟩ := entry
    have present : (others.lookup name).isSome = true :=
      lookup_isSome_iff.mpr (names.perm.mem_iff.mp (List.mem_map_of_mem member))
    obtain ⟨second, found⟩ := Option.isSome_iff_exists.mp present
    have grown := values name first second ((lookup_eq_some_iff_of_nodup nodup).mpr member) found
    simp only [fill, found, Option.getD_some]
    exact ⟨trivial, grown⟩
  have grown := grown_object_of_forall₂ inPlace []
  rw [List.nil_append, List.nil_append, ← Function.comp_def, ← List.map_map] at grown
  have restored : (others.map Prod.fst).map fill = others := by
    have unchanged : ∀ entry ∈ others, (fill ∘ Prod.fst) entry = id entry := by
      intro entry member
      obtain ⟨name, value⟩ := entry
      have found := (lookup_eq_some_iff_of_nodup nodup').mpr member
      simp only [Function.comp_apply, fill, found, Option.getD_some, id_eq]
    rw [List.map_map, List.map_congr_left unchanged, List.map_id]
  rcases names with same | ⟨allowed, perm⟩
  · rw [same, restored] at grown
    exact grown
  · have moved := perm.map fill
    rw [restored] at moved
    exact grown.trans (Grown.single (Grows.shuffle allowed moved))

/-! ## Merging -/

theorem distinct_dropWrapper {tree : Tree} (distinct : Distinct tree) :
    Distinct tree.dropWrapper := by
  rw [← distinct_core_iff, core_dropWrapper, distinct_core_iff]
  exact distinct

theorem distinct_of_lookup {members : List (String × Tree)} {name : String} {value : Tree}
    (distinct : Distinct (.object members)) (found : members.lookup name = some value) :
    Distinct value :=
  (distinct_object_iff.mp distinct).2 _ (mem_of_lookup found)

theorem distinct_of_member {before after : List (String × Tree)} {name : String} {value : Tree}
    (distinct : Distinct (.object (before ++ (name, value) :: after))) : Distinct value :=
  (distinct_object_iff.mp distinct).2 (name, value) (List.mem_append_right _ List.mem_cons_self)

/-- A changed member is seen under its name, or it stands behind a namesake. -/
theorem lookup_member_cases (before after : List (String × Tree)) (name : String)
    (first second : Tree) (query : String) :
    (before ++ (name, first) :: after).lookup query =
        (before ++ (name, second) :: after).lookup query ∨
      (before ++ (name, first) :: after).lookup query = some first ∧
        (before ++ (name, second) :: after).lookup query = some second := by
  induction before with
  | nil =>
      simp only [List.nil_append, List.lookup_cons]
      cases query == name with
      | true => exact Or.inr ⟨rfl, rfl⟩
      | false => exact Or.inl rfl
  | cons entry before induction =>
      obtain ⟨key, value⟩ := entry
      simp only [List.cons_append, List.lookup_cons]
      cases query == key with
      | true => exact Or.inl rfl
      | false => exact induction

theorem sameNames_member (before after : List (String × Tree)) (name : String)
    (first second : Tree) :
    SameNames shuffled (before ++ (name, first) :: after) (before ++ (name, second) :: after) := by
  left
  simp

section Merging

variable {left left' right right' : List (String × Tree)}

/-- Where the merges of namesakes grow, the merge of the objects does. -/
theorem grown_mergeMembers (distinct : Distinct (.object left))
    (distinct' : Distinct (.object right))
    (first : SameNames shuffled left left') (second : SameNames shuffled right right')
    (values : ∀ name before after,
      Option.merge merge (left.lookup name) (right.lookup name) = some before →
      Option.merge merge (left'.lookup name) (right'.lookup name) = some after →
      Grown shuffled before after) :
    Grown shuffled (.object (mergeMembers left right)) (.object (mergeMembers left' right')) := by
  have nodup := (distinct_object_iff.mp distinct).1
  have nodup' := (distinct_object_iff.mp distinct').1
  apply grown_object (names_mergeMembers_nodup nodup nodup')
    (sameNames_mergeMembers nodup nodup' first second)
  intro name before after found found'
  rw [lookup_mergeMembers] at found found'
  exact values name before after found found'

/-- Where the same stands under every name, nothing but the order of the members grows. -/
theorem grown_mergeMembers_of_lookup (distinct : Distinct (.object left))
    (distinct' : Distinct (.object right))
    (first : SameNames shuffled left left') (second : SameNames shuffled right right')
    (same : ∀ name, left.lookup name = left'.lookup name)
    (same' : ∀ name, right.lookup name = right'.lookup name) :
    Grown shuffled (.object (mergeMembers left right)) (.object (mergeMembers left' right')) := by
  apply grown_mergeMembers distinct distinct' first second
  intro name early late found found'
  rw [same, same', found'] at found
  rw [Option.some.inj found]
  exact Grown.refl _

end Merging

section Member

variable {before after others : List (String × Tree)} {name : String} {first second : Tree}

/-- Whatever is made of the members, name by name, grows if it grows with the changed member. -/
theorem grown_of_member (combine : Option Tree → Option Tree) (query : String)
    (changed : ∀ early late, combine (some first) = some early →
      combine (some second) = some late → Grown shuffled early late) (early late : Tree)
    (found : combine ((before ++ (name, first) :: after).lookup query) = some early)
    (found' : combine ((before ++ (name, second) :: after).lookup query) = some late) :
    Grown shuffled early late := by
  rcases lookup_member_cases before after name first second query with same | ⟨here, here'⟩
  · rw [same, found'] at found
    rw [Option.some.inj found]
    exact Grown.refl _
  · rw [here] at found
    rw [here'] at found'
    exact changed early late found found'

variable (step : Grows shuffled first second)
  (distinct : Distinct (.object (before ++ (name, first) :: after)))
  (distinct' : Distinct (.object others))

include step distinct distinct'

theorem grown_mergeMembers_left
    (deeper : ∀ value, Distinct value → Grown shuffled (merge first value) (merge second value)) :
    Grown shuffled (.object (mergeMembers (before ++ (name, first) :: after) others))
      (.object (mergeMembers (before ++ (name, second) :: after) others)) := by
  apply grown_mergeMembers distinct distinct' (sameNames_member _ _ _ _ _) (Or.inl rfl)
  intro query
  apply grown_of_member (fun value => Option.merge merge value (others.lookup query)) query
  intro early late found found'
  cases other : others.lookup query with
  | none =>
      rw [other] at found found'
      rw [← Option.some.inj found, ← Option.some.inj found']
      exact Grown.single step
  | some value =>
      rw [other] at found found'
      rw [← Option.some.inj found, ← Option.some.inj found']
      exact deeper value (distinct_of_lookup distinct' other)

theorem grown_mergeMembers_right
    (deeper : ∀ value, Distinct value → Grown shuffled (merge value first) (merge value second)) :
    Grown shuffled (.object (mergeMembers others (before ++ (name, first) :: after)))
      (.object (mergeMembers others (before ++ (name, second) :: after))) := by
  apply grown_mergeMembers distinct' distinct (Or.inl rfl) (sameNames_member _ _ _ _ _)
  intro query
  apply grown_of_member (fun value => Option.merge merge (others.lookup query) value) query
  intro early late found found'
  cases other : others.lookup query with
  | none =>
      rw [other] at found found'
      rw [← Option.some.inj found, ← Option.some.inj found']
      exact Grown.single step
  | some value =>
      rw [other] at found found'
      rw [← Option.some.inj found, ← Option.some.inj found']
      exact deeper value (distinct_of_lookup distinct' other)

end Member

/-- What grows on the left of a merge makes the merge grow. -/
theorem Grows.merge_left {first second right : Tree} (step : Grows shuffled first second)
    (distinct : Distinct first) (distinct' : Distinct right) :
    Grown shuffled (merge first right) (merge second right) := by
  induction step generalizing right with
  | again before block after =>
      rw [merge, merge]
      apply Grown.mapCore
      cases inside : right.core with
      | leaf expr => exact Grown.refl _
      | object members => exact Grown.refl _
      | optional inner => exact absurd inside (core_ne_optional right inner)
      | array others =>
          have repeated : Grows shuffled _ _ := Grows.again before block (after ++ others)
          simp only [← List.append_assoc] at repeated ⊢
          exact Grown.single repeated
  | @element before after first second step induction =>
      rw [merge, merge]
      apply Grown.mapCore
      cases inside : right.core with
      | leaf expr => exact Grown.refl _
      | object members => exact Grown.refl _
      | optional inner => exact absurd inside (core_ne_optional right inner)
      | array others =>
          have changed := (Grown.single step).element before (after ++ others)
          simp only [List.append_assoc, List.cons_append]
          exact changed
  | @inner first second step induction =>
      cases distinct with
      | optional distinct =>
          rw [merge_optional_left, merge_optional_left]
          exact (induction distinct (distinct_dropWrapper distinct')).inner
  | @member before after name first second step induction =>
      rw [merge, merge]
      apply Grown.mapCore
      rw [← distinct_core_iff] at distinct'
      cases inside : right.core with
      | leaf expr => exact Grown.refl _
      | array elements => exact Grown.refl _
      | optional inner => exact absurd inside (core_ne_optional right inner)
      | object others =>
          rw [inside] at distinct'
          apply grown_mergeMembers_left step distinct distinct'
          intro value valued
          exact induction (distinct_of_member distinct) valued
  | @shuffle members moved allowed perm =>
      rw [merge, merge]
      apply Grown.mapCore
      rw [← distinct_core_iff] at distinct'
      cases inside : right.core with
      | leaf expr => exact Grown.refl _
      | array elements => exact Grown.refl _
      | optional inner => exact absurd inside (core_ne_optional right inner)
      | object others =>
          rw [inside] at distinct'
          have names : SameNames shuffled members moved :=
            Or.inr ⟨allowed, perm.map Prod.fst⟩
          exact grown_mergeMembers_of_lookup distinct distinct' names (Or.inl rfl)
            (lookup_eq_of_perm (distinct_object_iff.mp distinct).1 perm) fun _ => rfl

/-- Nullable wrappers on the left do not keep a merge from growing. -/
theorem grown_merge_of_core {left right right' : Tree} (bare : right.dropWrapper = right)
    (bare' : right'.dropWrapper = right')
    (grown : Grown shuffled (merge left.core right) (merge left.core right')) :
    Grown shuffled (merge left right) (merge left right') := by
  induction left using core.induct with
  | case1 wrapped induction =>
      rw [merge_optional_left, merge_optional_left, bare, bare']
      exact (induction grown).inner
  | case2 left plain =>
      rw [core.eq_2 left plain] at grown
      exact grown

/-- What grows on the right of a merge makes the merge grow. -/
theorem Grows.merge_right {left first second : Tree} (step : Grows shuffled first second)
    (distinct : Distinct left) (distinct' : Distinct first) :
    Grown shuffled (merge left first) (merge left second) := by
  induction step generalizing left with
  | again before block after =>
      apply grown_merge_of_core rfl rfl
      cases inside : left.core with
      | leaf expr =>
          rw [merge_leaf, merge_leaf]
          exact Grown.single (Grows.again before block after)
      | object members => exact Grown.single (Grows.again before block after)
      | optional inner => exact absurd inside (core_ne_optional left inner)
      | array others =>
          rw [merge_array_array, merge_array_array]
          have repeated : Grows shuffled _ _ := Grows.again (others ++ before) block after
          simp only [List.append_assoc] at repeated ⊢
          exact Grown.single repeated
  | @element before after first second step induction =>
      apply grown_merge_of_core rfl rfl
      cases inside : left.core with
      | leaf expr =>
          rw [merge_leaf, merge_leaf]
          exact (Grown.single step).element before after
      | object members => exact (Grown.single step).element before after
      | optional inner => exact absurd inside (core_ne_optional left inner)
      | array others =>
          rw [merge_array_array, merge_array_array, ← List.append_assoc, ← List.append_assoc]
          exact (Grown.single step).element (others ++ before) after
  | @inner first second step induction =>
      cases distinct' with
      | optional distinct' =>
          rw [merge_optional_right, merge_optional_right]
          exact (induction (distinct_dropWrapper distinct) distinct').inner
  | @member before after name first second step induction =>
      apply grown_merge_of_core rfl rfl
      rw [← distinct_core_iff] at distinct
      cases inside : left.core with
      | leaf expr =>
          rw [merge_leaf, merge_leaf]
          exact (Grown.single step).member before after name
      | array elements => exact (Grown.single step).member before after name
      | optional inner => exact absurd inside (core_ne_optional left inner)
      | object others =>
          rw [inside] at distinct
          rw [merge_object_object, merge_object_object]
          apply grown_mergeMembers_right step distinct' distinct
          intro value valued
          exact induction valued (distinct_of_member distinct')
  | @shuffle members moved allowed perm =>
      apply grown_merge_of_core rfl rfl
      rw [← distinct_core_iff] at distinct
      cases inside : left.core with
      | leaf expr =>
          rw [merge_leaf, merge_leaf]
          exact Grown.single (Grows.shuffle allowed perm)
      | array elements => exact Grown.single (Grows.shuffle allowed perm)
      | optional inner => exact absurd inside (core_ne_optional left inner)
      | object others =>
          rw [inside] at distinct
          rw [merge_object_object, merge_object_object]
          have names : SameNames shuffled members moved :=
            Or.inr ⟨allowed, perm.map Prod.fst⟩
          exact grown_mergeMembers_of_lookup distinct distinct' (Or.inl rfl) names (fun _ => rfl)
            (lookup_eq_of_perm (distinct_object_iff.mp distinct').1 perm)

namespace Grown

theorem merge {left left' right right' : Tree} (first : Grown shuffled left left')
    (second : Grown shuffled right right') (distinct : Distinct left)
    (distinct' : Distinct right) :
    Grown shuffled (Tree.merge left right) (Tree.merge left' right') := by
  have onLeft : Grown shuffled (Tree.merge left right) (Tree.merge left' right) := by
    clear second
    induction first with
    | refl => exact refl _
    | tail earlier step induction =>
        exact induction.trans (step.merge_left (Grown.distinct earlier distinct) distinct')
  have onRight : Grown shuffled (Tree.merge left' right) (Tree.merge left' right') := by
    have distinct := first.distinct distinct
    clear onLeft first
    induction second with
    | refl => exact refl _
    | tail earlier step induction =>
        exact induction.trans (step.merge_right distinct (Grown.distinct earlier distinct'))
  exact onLeft.trans onRight

theorem foldl_merge {start start' : Tree} {trees trees' : List Tree}
    (first : Grown shuffled start start') (all : List.Forall₂ (Grown shuffled) trees trees')
    (distinct : Distinct start) (allDistinct : ∀ tree ∈ trees, Distinct tree) :
    Grown shuffled (trees.foldl Tree.merge start) (trees'.foldl Tree.merge start') := by
  induction all generalizing start start' with
  | nil => exact first
  | cons here _ induction =>
      rw [List.forall_mem_cons] at allDistinct
      exact induction (first.merge here distinct allDistinct.1)
        (distinct_merge distinct allDistinct.1) allDistinct.2

theorem forall_distinct {trees trees' : List Tree}
    (all : List.Forall₂ (Grown shuffled) trees trees')
    (allDistinct : ∀ tree ∈ trees, Distinct tree) : ∀ tree ∈ trees', Distinct tree := by
  induction all with
  | nil => exact allDistinct
  | cons here _ induction =>
      rw [List.forall_mem_cons] at allDistinct ⊢
      exact ⟨here.distinct allDistinct.1, induction allDistinct.2⟩

end Grown

end Tree

end ScopedSchema
