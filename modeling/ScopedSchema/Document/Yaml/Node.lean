import ScopedSchema.Document.Yaml.Token

/-!
The nodes of a YAML document. An alias refers to a slot, and an anchored node fills one; when
several nodes fill the same slot, the last of them counts, wherever the alias stands.
-/

namespace ScopedSchema

namespace Yaml

structure Scalar where
  text : String := ""
  style : Style := .plain
  tag : Option TagName := none

inductive Node where
  | scalar (slot : Option Nat) (scalar : Scalar)
  | sequence (slot : Option Nat) (tag : Option TagName) (items : List Node)
  | mapping (slot : Option Nat) (tag : Option TagName) (entries : List (Node × Node))
  | alias (slot : Nat)

namespace Node

def empty : Node := .scalar none {}

instance : Inhabited Node := ⟨empty⟩

mutual

/-- The nodes that fill slots, in the order in which they begin. -/
def slots : Node → List (Nat × Node)
  | .scalar slot content => slot.toList.map fun number => (number, .scalar slot content)
  | .sequence slot tag items =>
    (slot.toList.map fun number => (number, .sequence slot tag items)) ++ slotsOfItems items
  | .mapping slot tag entries =>
    (slot.toList.map fun number => (number, .mapping slot tag entries)) ++ slotsOfEntries entries
  | .alias _ => []

def slotsOfItems : List Node → List (Nat × Node)
  | [] => []
  | item :: rest => item.slots ++ slotsOfItems rest

def slotsOfEntries : List (Node × Node) → List (Nat × Node)
  | [] => []
  | (key, value) :: rest => key.slots ++ value.slots ++ slotsOfEntries rest

end

mutual

/-- Every node counts, and a collection counts once more for its end. -/
def size : Node → Nat
  | .sequence _ _ items => 2 + sizeOfItems items
  | .mapping _ _ entries => 2 + sizeOfEntries entries
  | _ => 1

def sizeOfItems : List Node → Nat
  | [] => 0
  | item :: rest => item.size + sizeOfItems rest

def sizeOfEntries : List (Node × Node) → Nat
  | [] => 0
  | (key, value) :: rest => key.size + value.size + sizeOfEntries rest

end

end Node

end Yaml

end ScopedSchema
