import ScopedSchema.Document.Yaml.Lexer
import ScopedSchema.Document.Yaml.Node

/-!
The grammar of YAML: the one document that a list of tokens makes up. A missing node is an empty
plain scalar.
-/

namespace ScopedSchema

namespace Yaml

/-- The tokens to come, the handles that tags may use, and the slots of the anchors so far. -/
structure Source where
  tokens : List Token
  handles : List (String × TagName)
  anchors : List (String × Nat) := []

abbrev Grammar := StateT Source Option

namespace Grammar

def peek : Grammar (Option Token) := fun source => some (source.tokens.head?, source)

def skip : Grammar Unit := fun source => some ((), { source with tokens := source.tokens.tail })

/-- Passes the next token if it is the given one. -/
def accept (token : Token) : Grammar Bool := do
  if (← peek) = some token then
    skip
    return true
  else return false

def expect (token : Token) : Grammar Unit := do
  if !(← accept token) then failure

def nextIsOneOf (tokens : List Token) : Grammar Bool := do
  return (← peek).any tokens.contains

/-- Gives an anchor the slot whose number is the number of names that have one already. -/
def declare (name : String) : Grammar Nat := fun source =>
  let slot := source.anchors.length
  let anchors :=
    if (source.anchors.lookup name).isSome then
      source.anchors.map fun entry => if entry.1 = name then (name, slot) else entry
    else source.anchors ++ [(name, slot)]
  some (slot, { source with anchors := anchors })

def reference (name : String) : Grammar Node := fun source =>
  (source.anchors.lookup name).map fun slot => (.alias slot, source)

def resolve (tag : Tag) : Grammar TagName := fun source =>
  if tag.handle.isEmpty then some (tag.suffix, source)
  else (source.handles.lookup tag.handle).map fun leading => (leading ++ tag.suffix, source)

def anchor? : Grammar (Option String) := do
  match ← peek with
  | some (.anchor name) =>
    skip
    return some name
  | _ => return none

def tag? : Grammar (Option Tag) := do
  match ← peek with
  | some (.tag tag) =>
    skip
    return some tag
  | _ => return none

/-- An anchor and a tag in either order. -/
def properties : Grammar (Option Nat × Option TagName) := do
  let early ← anchor?
  let tag ← tag?
  let late ← if early.isNone && tag.isSome then anchor? else pure none
  let resolved ← tag.mapM resolve
  let slot ← (early.or late).mapM declare
  return (slot, resolved)

/-- Which collections may stand here. -/
inductive Place where
  /-- Only those in brackets. -/
  | flow
  | block
  /-- Those in a mapping, where a sequence need not be indented. -/
  | blockMember
  deriving DecidableEq

mutual

/-- Of four calls inside each other at least one takes a token, so four times the number of tokens
is fuel enough. -/
def node : Nat → Place → Grammar Node
  | 0, _ => failure
  | fuel + 1, place => do
    if let some (.alias name) ← peek then
      skip
      reference name
    else
      let (slot, tag) ← properties
      match ← peek with
      | some (.scalar style text) =>
        skip
        return .scalar slot ⟨text, style, tag⟩
      | some .flowSequence =>
        skip
        return .sequence slot tag (← flowItems fuel true)
      | some .flowMapping =>
        skip
        return .mapping slot tag (← flowEntries fuel true)
      | some .blockEntry =>
        if place = .blockMember then return .sequence slot tag (← plainItems fuel)
        else missing slot tag
      | some .blockSequence =>
        if place = .flow then missing slot tag
        else
          skip
          return .sequence slot tag (← blockItems fuel)
      | some .blockMapping =>
        if place = .flow then missing slot tag
        else
          skip
          return .mapping slot tag (← blockEntries fuel)
      | _ => missing slot tag

/-- Properties alone make up a node. -/
def missing (slot : Option Nat) (tag : Option TagName) : Grammar Node :=
  if slot.isNone && tag.isNone then failure
  else return .scalar slot ⟨"", .plain, tag⟩

def nodeUnless : Nat → Place → List Token → Grammar Node
  | 0, _, _ => failure
  | fuel + 1, place, ends => do
    if ← nextIsOneOf ends then return .empty else node fuel place

/-- The items of a block sequence that is indented. -/
def blockItems : Nat → Grammar (List Node)
  | 0 => failure
  | fuel + 1 => do
    if ← accept .blockEntry then
      let item ← nodeUnless fuel .block [.blockEntry, .blockEnd]
      return item :: (← blockItems fuel)
    else
      expect .blockEnd
      return []

/-- The items of a block sequence that is not indented. -/
def plainItems : Nat → Grammar (List Node)
  | 0 => failure
  | fuel + 1 => do
    if ← accept .blockEntry then
      let item ← nodeUnless fuel .block [.blockEntry, .key, .value, .blockEnd]
      return item :: (← plainItems fuel)
    else return []

def blockEntries : Nat → Grammar (List (Node × Node))
  | 0 => failure
  | fuel + 1 => do
    if ← accept .key then
      let key ← nodeUnless fuel .blockMember [.key, .value, .blockEnd]
      let value ←
        if ← accept .value then nodeUnless fuel .blockMember [.key, .value, .blockEnd]
        else pure .empty
      return (key, value) :: (← blockEntries fuel)
    else
      expect .blockEnd
      return []

def flowItems : Nat → Bool → Grammar (List Node)
  | 0, _ => failure
  | fuel + 1, first => do
    if ← accept .flowSequenceEnd then return []
    else
      if !first then expect .flowEntry
      if ← accept .flowSequenceEnd then return []
      else
        let item ← if ← accept .key then flowPair fuel else node fuel .flow
        return item :: (← flowItems fuel false)

/-- A pair in a flow sequence is a mapping of its own. Punctuation that stands in the place of its
key is passed over. -/
def flowPair : Nat → Grammar Node
  | 0 => failure
  | fuel + 1 => do
    let key ←
      if ← nextIsOneOf [.value, .flowEntry, .flowSequenceEnd] then
        skip
        pure .empty
      else node fuel .flow
    let value ←
      if ← accept .value then nodeUnless fuel .flow [.flowEntry, .flowSequenceEnd]
      else pure .empty
    return .mapping none none [(key, value)]

def flowEntries : Nat → Bool → Grammar (List (Node × Node))
  | 0, _ => failure
  | fuel + 1, first => do
    if ← accept .flowMappingEnd then return []
    else
      if !first then expect .flowEntry
      if ← accept .flowMappingEnd then return []
      else if ← accept .key then
        let key ← nodeUnless fuel .flow [.value, .flowEntry, .flowMappingEnd]
        let value ←
          if ← accept .value then nodeUnless fuel .flow [.flowEntry, .flowMappingEnd]
          else pure .empty
        return (key, value) :: (← flowEntries fuel false)
      else
        let key ← node fuel .flow
        return (key, .empty) :: (← flowEntries fuel false)

end

/-- Directives before a document: the version at most once, and each handle at most once. -/
def directives : List Token → Bool → List (String × TagName) →
    Option (List (String × TagName) × List Token)
  | .version major minor :: rest, versioned, handles =>
    if !versioned && major = 1 && (minor = 1 || minor = 2) then directives rest true handles
    else none
  | .handle name leading :: rest, versioned, handles =>
    if (handles.lookup name).isSome then none
    else directives rest versioned (handles ++ [(name, leading)])
  | rest, _, handles => some (handles, rest)

def standardHandles : List (String × TagName) :=
  [("!", TagName.ofText "!"), ("!!", TagName.core "")]

def isDocumentEdge : Token → Bool
  | .version _ _ => true
  | .handle _ _ => true
  | .documentStart => true
  | .documentEnd => true
  | _ => false

/-- The one document of a stream, with nothing but end markers behind it. -/
def ofTokens? (tokens : List Token) : Option Node := do
  let (handles, rest) ← directives tokens false []
  let fuel := 4 * tokens.length + 4
  match rest with
  | [] => if tokens.isEmpty then some .empty else none
  | .documentStart :: content =>
    if content.head?.all isDocumentEdge then ended .empty content
    else
      let (root, source) ← node fuel .block ⟨content, handles ++ standardHandles, []⟩
      ended root source.tokens
  | content =>
    if tokens.head?.any isDocumentEdge then none
    else
      let (root, source) ← node fuel .block ⟨content, standardHandles, []⟩
      ended root source.tokens
where
  ended (root : Node) (tokens : List Token) : Option Node :=
    if tokens.all fun token => token = .documentEnd then some root else none

end Grammar

end Yaml

end ScopedSchema
