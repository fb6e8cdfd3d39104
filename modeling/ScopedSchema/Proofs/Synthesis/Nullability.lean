import ScopedSchema.Proofs.Expansion
import ScopedSchema.Proofs.Module
import ScopedSchema.Proofs.RelationOperation
import ScopedSchema.Proofs.Synthesis.Step
import ScopedSchema.Proofs.Tree.Leaves

/-!
# Nullability of schemas

Whatever a schema is made of is put together step by step, from the types of the registry or of an
override. So a schema is printed with the suffix for nullability exactly where a step, a type or a
wrapper of its tree calls for it, and nowhere twice in a row.
-/

namespace ScopedSchema

namespace Expr

/-- Put together without being made nullable; what its parts are does not count. -/
def Plain (expr : Expr) : Prop :=
  ∃ construction : Construction,
    construction.expr = expr ∧ construction.Once ∧ construction.nullishCount = 0

theorem Plain.built {expr : Expr} (plain : expr.Plain) : expr.Built := by
  obtain ⟨construction, same, _⟩ := plain
  exact ⟨construction, same⟩

theorem plain_scalar (type : ScalarType) : type.expr.Plain :=
  ⟨.scalar type, rfl, Construction.Once.scalar type, rfl⟩

theorem plain_any : any.Plain := plain_scalar .json

theorem plain_enumeration (values : List String) : (enumeration values).Plain :=
  ⟨.enumeration values, rfl, Construction.Once.enumeration values, rfl⟩

theorem plain_object {entries : List (String × Expr)} (all : ∀ entry ∈ entries, entry.2.Built) :
    (Expr.object entries).Plain := by
  obtain ⟨members, rfl⟩ := exists_members_of_built all
  refine ⟨(Construction.object members).settled, ?_, ?_, rfl⟩
  · rw [Construction.expr_settled, Construction.expr]
  · exact Construction.once_settled _

end Expr

/-! ## Types of the registry -/

theorem Registry.plain_leafExpr (registry : Registry) (tag : String) :
    (registry.leafExpr tag).Plain := by
  unfold Registry.leafExpr
  cases registry.enum? tag with
  | some members => exact Expr.plain_enumeration members
  | none =>
      cases ScalarType.ofTag? tag with
      | some type => exact Expr.plain_scalar type
      | none => exact Expr.plain_any

theorem plain_expandModel (context : Context) (name path : String) (trail : Trail) :
    (expandModel context name path trail).Plain := by
  induction name, path, trail using expandModel.induct context with
  | case1 name path trail visited =>
      rw [expandModel_of_visited context visited]
      exact Expr.plain_any
  | case2 name path trail fresh absent =>
      rw [expandModel_of_unregistered context fresh absent]
      exact Expr.plain_any
  | case3 name path trail fresh model found induction =>
      rw [expandModel_of_registered context fresh found]
      apply Expr.plain_object
      intro entry listed
      obtain ⟨field, _, taken⟩ := List.mem_filterMap.mp listed
      split at taken
      · rw [← Option.some.inj taken]
        have value : (if context.isLeafType field.2.typeTag then
            context.registry.leafExpr field.2.typeTag
          else expandModel context ((context.resolveModel? field.2.typeTag).getD field.2.typeTag)
            (Path.child path field.1) (name :: trail)).Built := by
          split
          · exact (context.registry.plain_leafExpr _).built
          · exact (induction field).built
        dsimp only
        split
        · exact value.nullish
        · exact value
      · cases taken

theorem plain_mapType (context : Context) (tag path : String) (values : List String)
    (trail : Trail) : (mapType context tag path values trail).Plain := by
  unfold mapType
  split
  · split
    · exact context.registry.plain_leafExpr tag
    · exact Expr.plain_enumeration values
  · split
    · exact Expr.plain_any
    · split
      · exact plain_expandModel context _ path trail
      · exact Expr.plain_any

/-! ## Write operations -/

theorem Expr.built_single {name : String} {value : Expr} (built : value.Built) :
    (Expr.object [(name, value)]).Built :=
  Expr.built_object (List.forall_mem_singleton.mpr built)

theorem Expr.built_pair {first second : String} {left right : Expr} (built : left.Built)
    (later : right.Built) : (Expr.object [(first, left), (second, right)]).Built :=
  Expr.built_object (List.forall_mem_cons.mpr ⟨built, List.forall_mem_singleton.mpr later⟩)

section Operations

variable (context : Context) (target : RelationTarget) {key : Expr} (built : key.Built)

include built

theorem RelationTarget.built_listOrFlag : (target.listOrFlag key).Built := by
  unfold RelationTarget.listOrFlag
  split
  · exact built.array
  · exact Expr.built_scalar .boolean

theorem RelationTarget.built_schema (operation : RelationOperation) :
    (target.schema context key operation).Built := by
  have payload (suffix : String) : (target.payload context suffix).Built :=
    (plain_expandModel context _ _ _).built
  have anyone : (Expr.object []).nullish.Built :=
    (Expr.built_object (List.forall_mem_nil _)).nullish
  cases operation with
  | connect => exact built
  | connectOrCreate => exact Expr.built_pair built (payload _)
  | create => exact payload _
  | createMany =>
      exact (Expr.built_pair (payload _).array (Expr.built_scalar .boolean).nullish).nullish
  | delete => exact (Expr.built_single (target.built_listOrFlag built)).nullish
  | deleteMany => exact (Expr.built_single anyone).nullish
  | disconnect => exact (Expr.built_single (target.built_listOrFlag built)).nullish
  | set =>
      apply Expr.Built.nullish
      apply Expr.built_single
      split
      · exact built.array
      · exact built
  | update =>
      apply Expr.Built.nullish
      apply Expr.built_single
      split
      · exact (Expr.built_pair built (payload _)).array
      · exact Expr.built_single (payload _)
  | updateMany => exact (Expr.built_pair anyone (payload _)).nullish
  | upsert =>
      exact Expr.built_object (List.forall_mem_cons.mpr ⟨built, List.forall_mem_cons.mpr
        ⟨payload _, List.forall_mem_singleton.mpr (payload _)⟩⟩)

end Operations

theorem built_of_relationOperations? {context : Context} {model path : String} {isList : Bool}
    {schemas : List (RelationOperation × Expr)}
    (found : relationOperations? context model path isList = some schemas) :
    ∀ entry ∈ schemas, entry.2.Built := by
  unfold relationOperations? at found
  split at found
  · cases found
  · rw [← Option.some.inj found]
    intro entry listed
    obtain ⟨operation, _, rfl⟩ := List.mem_map.mp listed
    exact RelationTarget.built_schema context _
      (Expr.built_single (plain_mapType context _ _ _ _).built) operation

/-! ## Leaves -/

namespace Construction

/-- What a leaf is made of: the message goes around the type, and the leaf is then made nullable
unless its type is nullable already. -/
def dressed (base : Construction) (message : Option String) (isOptional : Bool) : Construction :=
  let refined :=
    match message with
    | some message => Construction.refined base message
    | none => base
  if isOptional && !base.isNullish then .nullish refined else refined

theorem once_dressed {base : Construction} (once : base.Once) (message : Option String)
    (isOptional : Bool) : (base.dressed message isOptional).Once := by
  unfold dressed
  cases message with
  | none =>
      dsimp only
      split
      · rename_i optional
        rw [Bool.and_eq_true, Bool.not_eq_true'] at optional
        exact Once.nullish optional.2 once
      · exact once
  | some message =>
      dsimp only
      split
      · exact Once.nullish rfl (Once.refined message once)
      · exact Once.refined message once

theorem nullishCount_dressed {base : Construction}
    (counted : base.nullishCount = if base.isNullish then 1 else 0) (message : Option String)
    (isOptional : Bool) :
    (base.dressed message isOptional).nullishCount =
      if isOptional || base.isNullish then 1 else 0 := by
  have refined : (match message with
      | some message => Construction.refined base message
      | none => base).nullishCount = base.nullishCount := by
    cases message <;> rfl
  unfold dressed
  cases nullable : base.isNullish <;> cases isOptional <;>
    simp [nullable, refined, counted, nullishCount]

theorem isNullish_of_count {base : Construction} (none : base.nullishCount = 0) :
    base.isNullish = false := by
  cases base with
  | custom type => simpa [nullishCount, isNullish] using none
  | nullish inner => simp [nullishCount] at none
  | _ => rfl

theorem expr_dressed (base : Construction) (message : Option String) (isOptional : Bool) :
    (base.dressed message isOptional).expr =
      let refined :=
        match message with
        | some message => base.expr.withMessage message
        | none => base.expr
      if isOptional && !base.isNullish then refined.nullish else refined := by
  unfold dressed
  cases message <;> cases isOptional && !base.isNullish <;> rfl

end Construction

namespace Synthesis

open ScopedSchema.Tree

variable {context : Context}

/-- The type that a leaf is made of: that of the override, or else that of its tag. -/
def IsBase (context : Context) (change : Option FieldOverride) (tag path : String)
    (base : Construction) : Prop :=
  match change.bind FieldOverride.type with
  | some type => base = .custom type
  | none => base.expr = mapType context tag path [] [] ∧ base.Once ∧ base.nullishCount = 0

theorem exists_isBase (context : Context) (change : Option FieldOverride) (tag path : String) :
    ∃ base, IsBase context change tag path base := by
  unfold IsBase
  cases change.bind FieldOverride.type with
  | some type => exact ⟨.custom type, rfl⟩
  | none => exact plain_mapType context tag path [] []

variable {change : Option FieldOverride} {tag path : String} {base : Construction}

theorem IsBase.once (isBase : IsBase context change tag path base) :
    base.Once ∧ base.nullishCount = if base.isNullish then 1 else 0 := by
  unfold IsBase at isBase
  split at isBase
  · rw [isBase]
    exact ⟨Construction.Once.custom _, rfl⟩
  · refine ⟨isBase.2.1, ?_⟩
    rw [isBase.2.2, Construction.isNullish_of_count isBase.2.2]
    rfl

theorem leaf_eq_dressed (isBase : IsBase context change tag path base)
    (isOptional isList : Bool) :
    leaf context change isOptional isList tag path = markList isList
      (.leaf (base.dressed (change.bind FieldOverride.message) isOptional).expr) := by
  unfold leaf
  unfold IsBase at isBase
  -- each case of the override decides both sides
  cases typed : change.bind FieldOverride.type with
  | some type =>
      rw [typed] at isBase
      have same : base.expr = type.expr := congrArg Construction.expr isBase
      cases change.bind FieldOverride.message <;>
        simp only [Construction.expr_dressed, ← Construction.isNullish_expr, same]
  | none =>
      rw [typed] at isBase
      have same := isBase.1
      cases change.bind FieldOverride.message <;>
        simp only [Construction.expr_dressed, ← Construction.isNullish_expr, same]

/-! ## Trees -/

theorem built_markList {tree : Tree} (isList : Bool) (built : tree.Built) :
    (markList isList tree).Built := by
  cases isList with
  | false => exact built
  | true => exact AllLeaves.array (List.forall_mem_singleton.mpr built)

theorem built_leaf (context : Context) (change : Option FieldOverride) (isOptional isList : Bool)
    (tag path : String) : (leaf context change isOptional isList tag path).Built := by
  obtain ⟨base, isBase⟩ := exists_isBase context change tag path
  rw [leaf_eq_dressed isBase]
  exact built_markList isList (AllLeaves.leaf ⟨_, rfl⟩)

theorem built_nullableIf {tree : Tree} (isOptional : Bool) (built : tree.Built) :
    (nullableIf isOptional tree).Built := by
  cases isOptional with
  | false => exact built
  | true => exact allLeaves_asOptional built

theorem built_operationMembers {schemas : List (RelationOperation × Expr)}
    (all : ∀ entry ∈ schemas, entry.2.Built) : (Tree.object (operationMembers schemas)).Built := by
  apply AllLeaves.object
  intro member listed
  obtain ⟨entry, inside, rfl⟩ := List.mem_map.mp listed
  exact AllLeaves.leaf (all entry inside)

theorem built_of_related {field : Field} {isList : Bool} {tree : Tree}
    (related : Related context (fun _ _ _ below => below.Built) field isList path tree) :
    tree.Built := by
  cases related with
  | unregistered resolved => exact AllLeaves.leaf Expr.built_any
  | unidentified resolved some none => exact AllLeaves.leaf Expr.built_any
  | entries resolved plain below =>
      cases isList with
      | true => exact built_markList true below
      | false => exact built_nullableIf field.isOptional below
  | operations resolved some identified below =>
      exact built_nullableIf field.isOptional
        (allLeaves_merge
          (built_operationMembers (built_of_relationOperations? identified)) below)

theorem built_of_walk {depth : Nat} {segments : List String} {previous : Option String}
    {model : String} {tree : Tree}
    (walked : walk context (nestedWithin context depth) change segments previous model path =
      .ok (some tree)) : tree.Built := by
  apply walk_induction (fun _ _ _ _ _ tree => tree.Built) (fun _ _ _ tree => tree.Built) _ _
    walked
  · intro change segment rest previous model path value _ step
    apply AllLeaves.object
    intro member listed
    rw [List.mem_singleton.mp listed]
    cases step with
    | logical kind child => exact built_markList true child
    | quantifier kind child => exact child
    | pagination kind => exact AllLeaves.leaf (Expr.built_scalar .float)
    | stringMatch kind => exact AllLeaves.leaf (Expr.built_scalar .string)
    | membership kind parent => exact AllLeaves.leaf (plain_mapType context _ _ _ _).built.array
    | comparison kind parent => exact AllLeaves.leaf (plain_mapType context _ _ _ _).built
    | field kind last found leafType => exact built_leaf context _ _ _ _ _
    | enum kind last none isEnum => exact built_leaf context _ _ _ _ _
    | relation kind found leafType related => exact built_of_related related
    | plain kind more followed free child => exact built_markList _ child
  · intro target path skip trees all
    apply allLeaves_foldl_merge allLeaves_emptyObject
    intro tree member
    obtain ⟨_, _, built⟩ := all tree member
    exact built

end Synthesis

theorem built_buildSchema {context : Context} {model : String} {schema : Tree}
    (found : buildSchema context model = .ok schema) : schema.Built := by
  rw [(buildSchema_eq_ok_iff.mp found).2.2]
  apply Tree.allLeaves_foldl_merge Tree.allLeaves_emptyObject
  intro tree member
  obtain ⟨entry, _, contributed⟩ := mem_trees_iff.mp member
  exact Synthesis.built_of_walk contributed

/-- The end of a text tells whether its outermost step made it nullable. So nothing is made nullable
twice in a row or left as it was by mistake, neither around a tree nor at a leaf. -/
theorem nullish_applied_once :
    (∀ construction : Construction,
      construction.expr.isNullish = construction.isNullish ∧
      construction.expr.nullish =
        if construction.isNullish then construction.expr
        else ⟨construction.expr.text ++ ".nullish()"⟩) ∧
    (∀ tree : Tree, tree.Built →
      (∃ construction : Construction, construction.Once ∧ construction.expr = tree.render ∧
        construction.isNullish = tree.isNullable) ∧
      (Tree.optional tree).render =
        if tree.isNullable then tree.render else ⟨tree.render.text ++ ".nullish()"⟩) ∧
    (∀ (context : Context) (model : String) (schema : Tree),
      buildSchema context model = .ok schema → schema.Built) ∧
    ∀ (context : Context) (change : Option FieldOverride) (isOptional isList : Bool)
      (tag path : String), ∃ base, Synthesis.IsBase context change tag path base ∧
        Synthesis.leaf context change isOptional isList tag path = Synthesis.markList isList
          (.leaf (base.dressed (change.bind FieldOverride.message) isOptional).expr) ∧
        (base.dressed (change.bind FieldOverride.message) isOptional).Once ∧
        (base.dressed (change.bind FieldOverride.message) isOptional).nullishCount =
          if isOptional || base.isNullish then 1 else 0 := by
  refine ⟨?_, ?_, ?_, ?_⟩
  · intro construction
    exact ⟨construction.isNullish_expr, construction.nullish_expr⟩
  · intro tree built
    exact ⟨Tree.exists_once_render built, Tree.render_optional_eq built⟩
  · intro context model schema found
    exact built_buildSchema found
  · intro context change isOptional isList tag path
    obtain ⟨base, isBase⟩ := Synthesis.exists_isBase context change tag path
    obtain ⟨once, counted⟩ := isBase.once
    exact ⟨base, isBase, Synthesis.leaf_eq_dressed isBase isOptional isList,
      Construction.once_dressed once _ isOptional,
      Construction.nullishCount_dressed counted _ isOptional⟩

/-- A key and a message that end like a nullable text. -/
def imitation : FieldOverride where
  type := some (.object [(".nullish()", .named "email?")])
  message := some "gone.nullish()"

/-- Bookings with a note that may be missing, a title that may not, and a kind whose only value ends
like a nullable text, too. -/
def bookings : Context where
  registry :=
    { models := ⟨[("booking", ⟨⟨[("note", { typeTag := "String", isOptional := true }),
        ("title", { typeTag := "String" }), ("kind", { typeTag := "Kind" })], by decide⟩⟩)],
        by decide⟩
      enums := ⟨[("Kind", [".nullish()"])], by decide⟩ }
  synonyms := Synonyms.empty
  allow := ⟨[.override "note" imitation, .override "title" imitation, .bare "kind"]⟩

def imitationText : String :=
  "z.object(\x7b '.nullish()': z.string().email().nullish() \x7d)" ++
    ".refine((val) => true, \x7b message: \"gone.nullish()\" \x7d)"

def noteTree : Tree := .leaf ⟨imitationText ++ ".nullish()"⟩

def titleTree : Tree := .leaf ⟨imitationText⟩

def kindTree : Tree := .leaf ⟨"z.enum([\".nullish()\"])"⟩

/-- What is printed for the note is nullable already. What is printed for the title and the kind is
not, although there is the same suffix within. -/
theorem nullish_applied_once_bookings :
    buildSchema bookings "booking" =
        .ok (.object [("note", noteTree), ("title", titleTree), ("kind", kindTree)]) ∧
      noteTree.Built ∧ titleTree.Built ∧ kindTree.Built ∧
      (Tree.optional noteTree).render = noteTree.render ∧
      (Tree.optional titleTree).render = ⟨titleTree.render.text ++ ".nullish()"⟩ ∧
      (Tree.optional kindTree).render = ⟨kindTree.render.text ++ ".nullish()"⟩ := by
  obtain ⟨_, trees, schemas, _⟩ := nullish_applied_once
  have built : buildSchema bookings "booking" =
      .ok (.object [("note", noteTree), ("title", titleTree), ("kind", kindTree)]) := by
    decide +kernel
  have members := Tree.allLeaves_object_iff.mp (schemas bookings "booking" _ built)
  have note : noteTree.Built := members _ List.mem_cons_self
  have title : titleTree.Built := members _ (List.mem_cons_of_mem _ List.mem_cons_self)
  have kind : kindTree.Built :=
    members _ (List.mem_cons_of_mem _ (List.mem_cons_of_mem _ List.mem_cons_self))
  have nullable : noteTree.isNullable = true := by decide +kernel
  have plain : titleTree.isNullable = false := by decide +kernel
  have plain' : kindTree.isNullable = false := by decide +kernel
  refine ⟨built, note, title, kind, ?_, ?_, ?_⟩
  · rw [(trees _ note).2, if_pos nullable]
  · rw [(trees _ title).2, plain]
    rfl
  · rw [(trees _ kind).2, plain']
    rfl

end ScopedSchema
