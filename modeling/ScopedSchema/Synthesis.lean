import ScopedSchema.GenerationError
import ScopedSchema.Operator
import ScopedSchema.RelationOperation
import ScopedSchema.Tree
import ScopedSchema.Zod.CustomType

/-!
Synthesis: the tree that one path of the allow list contributes. The path is walked segment by
segment; each segment becomes the one member of an object, or the whole branch contributes nothing.
A relation at the end of a path takes in every entry below it, which starts new walks at that path.
-/

namespace ScopedSchema

/-- A tree, or nothing when the branch cannot be typed. -/
abbrev Contribution := Except GenerationError (Option Tree)

/-- Synthesizes the entries below a relation, given its target model, its path, and whether
entries that begin with a write operation are passed over. -/
abbrev Nesting := String → String → Bool → Except GenerationError Tree

namespace Synthesis

/-- Literal values listed below a path, without repetitions. Empty segments do not count. -/
def listedLiterals (context : Context) (path : String) : List String :=
  let literals := (context.allow.descendants path).map fun descendant =>
    ".".intercalate (descendant.remainingKeys.filter fun key => !key.isEmpty)
  (literals.filter fun literal => !literal.isEmpty).foldl
    (fun seen literal => if seen.contains literal then seen else seen ++ [literal]) []

def markList (isList : Bool) (tree : Tree) : Tree := if isList then .listOf tree else tree

/-- A value of a leaf type. A custom type that is nullable already is not made nullable again. -/
def leaf (context : Context) (change : Option FieldOverride) (isOptional isList : Bool)
    (tag path : String) : Tree :=
  let base :=
    match change.bind FieldOverride.type with
    | some type => type.expr
    | none => mapType context tag path [] []
  let refined :=
    match change.bind FieldOverride.message with
    | some message => base.withMessage message
    | none => base
  markList isList
    (.leaf (if isOptional && !base.isNullish then refined.nullish else refined))

/-- A relation field as a whole. Without write operations below it, it is what the entries below it
say; otherwise it is the set of those operations, and the entries add to it. -/
def relation (context : Context) (nested : Nesting) (field : Field) (isList : Bool)
    (path : String) : Except GenerationError Tree :=
  match context.resolveModel? field.typeTag with
  | none => .ok (.leaf .any)
  | some target =>
    if (allowedOperations context path).isEmpty then
      (nested target path false).map fun below =>
        if isList then .listOf below else if field.isOptional then below.asOptional else below
    else
      match relationOperations? context target path field.isList with
      | none => .ok (.leaf .any)
      | some schemas =>
        (nested target path true).map fun below =>
          let operations := schemas.map fun entry => (entry.1.name, Tree.leaf entry.2)
          let merged := (Tree.object operations).merge below
          if field.isOptional then merged.asOptional else merged

/-- The last segment of a path: a field of the model in scope, or the name of an enum. -/
def terminal (context : Context) (nested : Nesting) (change : Option FieldOverride)
    (scope key : String) (isList : Bool) (path : String) : Contribution :=
  match context.registry.field? scope key with
  | some field =>
    if context.isLeafType field.typeTag then
      .ok (some (leaf context change field.isOptional isList field.typeTag path))
    else (relation context nested field isList path).map some
  | none =>
    if context.registry.hasEnum key then
      .ok (some (leaf context change false isList key path))
    else .ok none

/-- What becomes of a plain segment that is not the last one. -/
inductive Descent where
  | stop (tree : Except GenerationError Tree)
  | into (model : String)

/-- A relation with write operations below it, or with an unregistered target, ends the walk. -/
def descent (context : Context) (nested : Nesting) (scope key : String) (isList : Bool)
    (path : String) : Descent :=
  match context.registry.field? scope key with
  | none => .into scope
  | some field =>
    if context.isLeafType field.typeTag then .into scope
    else if !(allowedOperations context path).isEmpty then
      .stop (relation context nested field isList path)
    else
      match context.resolveModel? field.typeTag with
      | some target => .into target
      | none => .stop (.ok (.leaf .any))

/-- The field that the preceding segment names on the model in scope. -/
def parentField? (context : Context) (scope : String) (previous : Option String) : Option Field :=
  previous.bind fun segment => context.registry.field? scope (Path.keyOf segment)

/-- The model whose records a quantifier ranges over. -/
def quantified (context : Context) (scope : String) (previous : Option String) : String :=
  match parentField? context scope previous with
  | some field => (context.resolveModel? field.typeTag).getD field.typeTag
  | none => scope

/-- Walks the segments below `path`. The model is used where no segment of the path names one, and
`previous` is the segment before these on the same walk. -/
def walk (context : Context) (nested : Nesting) (change : Option FieldOverride) :
    List String → Option String → String → String → Contribution
  | [], _, _, _ => .ok none
  | segment :: rest, previous, model, path =>
    let key := Path.keyOf segment
    let here := Path.child path key
    let scope := (context.modelOfPath? path).getD model
    let isList := Path.endsInMarker segment
    if context.isAllowed here then
      let value : Contribution :=
        match Operator.ofKey? key with
        | some .logical =>
          (walk context nested change rest none scope here).map (Option.map Tree.listOf)
        | some .quantifier =>
          walk context nested change rest none (quantified context scope previous) here
        | some .pagination => .ok (some (.leaf .number))
        | some .stringMatch => .ok (some (.leaf .string))
        | some .membership => .ok ((parentField? context scope previous).map fun field =>
            .leaf (.array (mapType context field.typeTag here (listedLiterals context here) [])))
        | some .comparison => .ok ((parentField? context scope previous).map fun field =>
            .leaf (mapType context field.typeTag here [] []))
        | none =>
          if rest.isEmpty then terminal context nested change scope key isList here
          else
            match descent context nested scope key isList here with
            | .stop tree => tree.map some
            | .into next =>
              (walk context nested change rest (some segment) next here).map
                (Option.map (markList isList))
      value.map (Option.map (Tree.single key))
    else .ok none

/-- Entries below a relation, with at most `depth` relations inside each other. -/
def nestedWithin (context : Context) : Nat → Nesting
  | 0 => fun _ _ _ => .error .endlessNesting
  | depth + 1 => fun target path skipOperations =>
    let chosen := (context.allow.descendants path).filter fun descendant =>
      !(skipOperations && descendant.remainingKeys.head?.any RelationOperation.isName)
    let trees := chosen.mapM fun descendant =>
      walk context (nestedWithin context depth) descendant.entry.change? descendant.remaining
        none target path
    trees.map fun found => (found.filterMap id).foldl Tree.merge .emptyObject

/-- Relations inside each other lie at longer and longer paths, up to the longest entry. Below the
empty path, where the empty field name adds nothing, their target models are different, or the
nesting has no end. -/
def nestingBound (context : Context) : Nat :=
  context.registry.models.size + context.allow.depth + 1

end Synthesis

/-- The tree that the segments below `path` contribute. -/
def synthesize (context : Context) (change : Option FieldOverride) (segments : List String)
    (previous : Option String) (model path : String) : Contribution :=
  Synthesis.walk context (Synthesis.nestedWithin context (Synthesis.nestingBound context)) change
    segments previous model path

end ScopedSchema
