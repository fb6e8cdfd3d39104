import ScopedSchema.Expansion
import ScopedSchema.Text.Spelled

/-!
Write operations on relations. When a path allows operations below a relation, the relation is
printed as an object with one schema for each of them. Operations that address existing records
need an identifier of the related model; payloads are whole-model expansions below the operation.
-/

namespace ScopedSchema

inductive RelationOperation where
  | connect | connectOrCreate | create | createMany | delete | deleteMany | disconnect | set
  | update | updateMany | upsert
  deriving DecidableEq

structure UnknownRelationOperation where
  segment : String
  deriving DecidableEq

def UnknownRelationOperation.message (failure : UnknownRelationOperation) : String :=
  "unknown relation operation: " ++ Spelled.encode failure.segment

namespace RelationOperation

def all : List RelationOperation :=
  [connect, connectOrCreate, create, createMany, delete, deleteMany, disconnect, set, update,
    updateMany, upsert]

def name : RelationOperation → String
  | connect => "connect"
  | connectOrCreate => "connectOrCreate"
  | create => "create"
  | createMany => "createMany"
  | delete => "delete"
  | deleteMany => "deleteMany"
  | disconnect => "disconnect"
  | set => "set"
  | update => "update"
  | updateMany => "updateMany"
  | upsert => "upsert"

def ofName? (segment : String) : Option RelationOperation :=
  all.find? fun operation => operation.name = segment

def ofName (segment : String) : Except UnknownRelationOperation RelationOperation :=
  match ofName? segment with
  | some operation => .ok operation
  | none => .error ⟨segment⟩

def isName (segment : String) : Bool := (ofName? segment).isSome

theorem ofName?_name (operation : RelationOperation) :
    ofName? operation.name = some operation := by
  cases operation <;> decide

end RelationOperation

/-- The operations allowed directly below a path, in their fixed order. -/
def allowedOperations (context : Context) (path : String) : List RelationOperation :=
  RelationOperation.all.filter fun operation =>
    context.isAllowed (Path.child path operation.name)

/-- What the schemas of one relation have in common. -/
structure RelationTarget where
  model : String
  path : String
  isList : Bool
  identifier : String

namespace RelationTarget

def payload (context : Context) (target : RelationTarget) (suffix : String) : Expr :=
  expandModel context target.model (Path.child target.path suffix) []

def listOrFlag (target : RelationTarget) (key : Expr) : Expr :=
  if target.isList then .array key else .boolean

/-- The schema of an operation, where `key` is the object that picks one related record. -/
def schema (context : Context) (target : RelationTarget) (key : Expr) :
    RelationOperation → Expr
  | .connect => key
  | .connectOrCreate =>
    .object [("where", key), ("create", target.payload context "connectOrCreate.create")]
  | .create => target.payload context "create"
  | .createMany =>
    (Expr.object [("data", .array (target.payload context "createMany.data")),
      ("skipDuplicates", Expr.boolean.nullish)]).nullish
  | .delete => (Expr.object [("delete", target.listOrFlag key)]).nullish
  | .deleteMany => (Expr.object [("where", (Expr.object []).nullish)]).nullish
  | .disconnect => (Expr.object [("disconnect", target.listOrFlag key)]).nullish
  | .set => (Expr.object [("set", if target.isList then .array key else key)]).nullish
  | .update =>
    let data := target.payload context "update.data"
    let update :=
      if target.isList then Expr.array (.object [("where", key), ("data", data)])
      else .object [("data", data)]
    (Expr.object [("update", update)]).nullish
  | .updateMany =>
    (Expr.object [("where", (Expr.object []).nullish),
      ("data", target.payload context "updateMany.data")]).nullish
  | .upsert =>
    .object [("where", key), ("create", target.payload context "upsert.create"),
      ("update", target.payload context "upsert.update")]

end RelationTarget

/-- The schemas of all allowed operations on a relation to `model`, unless the model has no
identifier. -/
def relationOperations? (context : Context) (model path : String) (isList : Bool) :
    Option (List (RelationOperation × Expr)) :=
  match (context.registry.model? model).bind Model.identifier? with
  | none => none
  | some (identifier, field) =>
    let target : RelationTarget := ⟨model, path, isList, identifier⟩
    some ((allowedOperations context path).map fun operation =>
      let place :=
        Path.child (Path.child (Path.child path operation.name) "where") identifier
      let key := Expr.object [(identifier, mapType context field.typeTag place [] [])]
      (operation, target.schema context key operation))

end ScopedSchema
