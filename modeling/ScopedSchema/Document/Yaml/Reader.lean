import ScopedSchema.Document.Shape
import ScopedSchema.Document.Yaml.Grammar
import ScopedSchema.Document.Yaml.Word

/-!
Reading YAML by a shape. Only what the shape looks for is read: members that a record does not know
may hold anything. Aliases are followed a limited number of times, so that a document which refers
to itself cannot be read for ever.
-/

namespace ScopedSchema

namespace Yaml

/-- Counts the aliases that may still be followed. -/
abbrev Reading := StateT Nat Option

namespace Reading

/-- Collections inside each other, at most. -/
def depthLimit : Nat := 128

def follow (slots : List (Nat × Node)) : Node → Reading Node
  | .alias slot => fun left =>
    match left, slots.reverse.lookup slot with
    | remaining + 1, some target => some (target, remaining)
    | _, _ => none
  | node => pure node

def ofOption {α : Type} (found : Option α) : Reading α := fun left =>
  found.map fun value => (value, left)

def text (slots : List (Nat × Node)) (node : Node) : Reading String := do
  match ← follow slots node with
  | .scalar _ scalar => return scalar.text
  | _ => failure

/-- Where a collection is looked for, an empty plain scalar is an empty one. -/
def value (slots : List (Nat × Node)) : Nat → Shape → Node → Reading Value
  | depth, shape, node => do
    match shape, ← follow slots node, depth with
    | .text, .scalar _ scalar, _ => return .string scalar.text
    | .optionalText, .scalar _ scalar, _ =>
      return (← ofOption scalar.optionalText?).elim .null .string
    | .flag, .scalar _ scalar, _ => return .bool (← ofOption scalar.flag?)
    | .anything, .scalar _ scalar, _ => ofOption scalar.value?
    | .anything, .sequence _ tag items, depth + 1 =>
      if tag.any TagName.isLocal then failure
      else return .list (← items.mapM fun item => value slots depth .anything item)
    | .anything, .mapping _ tag entries, depth + 1 =>
      if tag.any TagName.isLocal then failure
      else
        return .table (← entries.mapM fun entry => do
          return (← value slots depth .anything entry.1, ← value slots depth .anything entry.2))
    | .list item, .sequence _ _ items, depth + 1 =>
      return .list (← items.mapM fun node => value slots depth item node)
    | .list _, .scalar _ scalar, _ => if scalar.isVoid then return .list [] else failure
    | .table member, .mapping _ _ entries, depth + 1 =>
      return .table (← entries.mapM fun entry => do
        return (.string (← text slots entry.1), ← value slots depth member entry.2))
    | .table _, .scalar _ scalar, _ => if scalar.isVoid then return .table [] else failure
    | .record members, .mapping _ _ entries, depth + 1 =>
      return .table (← entries.filterMapM fun entry => do
        let name ← text slots entry.1
        match members.lookup name with
        | some member => return some (.string name, ← value slots depth member entry.2)
        | none => return none)
    | .record _, .scalar _ scalar, _ => if scalar.isVoid then return .table [] else failure
    | _, _, _ => failure

end Reading

def read? (shape : Shape) (text : String) : Option Value := do
  let root ← Grammar.ofTokens? (← tokens? text)
  let (value, _) ← Reading.value root.slots Reading.depthLimit shape root (100 * root.size)
  return value

end Yaml

end ScopedSchema
