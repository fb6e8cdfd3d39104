import ScopedSchema.Document.Yaml.Gap

/-!
Block scalars: lines that are indented deeper than what they belong to. A literal one keeps its line
breaks; a folded one turns a single break between two lines without leading blanks into a space.
-/

namespace ScopedSchema

namespace Yaml

namespace Block

/-- What becomes of the line breaks at the end. -/
inductive Chomping where
  | strip | clip | keep
  deriving DecidableEq

structure Header where
  chomping : Chomping := .clip
  /-- How much deeper the lines are indented, if the text says so. -/
  increment : Option Nat := none

def chomping? : Char → Option Chomping
  | '+' => some .keep
  | '-' => some .strip
  | _ => none

def increment? (character : Char) : Option Nat :=
  if character.isDigit then some (character.toNat - 48) else none

/-- The two indicators may stand in either order; an increment is never zero. -/
def header (text : List Char) : Header × List Char :=
  let (chomping, afterChomping) := indicator chomping? text
  let (increment, afterIncrement) := indicator increment? afterChomping
  let (late, rest) :=
    if chomping.isNone && increment.isSome then indicator chomping? afterIncrement
    else (none, afterIncrement)
  (⟨(chomping.or late).getD .clip, increment⟩, rest)
where
  indicator {α : Type} (meaning : Char → Option α) : List Char → Option α × List Char
    | [] => (none, [])
    | character :: rest =>
      match meaning character with
      | some found => (some found, rest)
      | none => (none, character :: rest)

/-- What has been read of a block scalar. -/
structure Progress where
  text : List Char := []
  /-- The break behind the last line that is not blank. -/
  leading : Option Char := none
  /-- The breaks of the blank lines after it. -/
  trailing : List Char := []
  /-- The last line begins with a blank. -/
  afterBlank : Bool := false

namespace Progress

/-- Characters of the text are kept last first. -/
def beginLine (progress : Progress) (folded : Bool) (first : Char) : Progress :=
  let joined :=
    if folded && progress.leading == some '\n' && !progress.afterBlank && !isBlank first then
      if progress.trailing.isEmpty then [' '] else progress.trailing
    else progress.leading.toList ++ progress.trailing
  ⟨first :: (joined.reverse ++ progress.text), none, [], isBlank first⟩

def finish (progress : Progress) (chomping : Chomping) : String :=
  let last := if chomping = .strip then [] else progress.leading.toList
  let blankLines := if chomping = .keep then progress.trailing else []
  String.ofList (progress.text.reverse ++ last ++ blankLines)

end Progress

/-- A block scalar is read line by line: first the margin, then the rest of the line. -/
inductive Place where
  | margin
  | line

/-- The indentation is zero as long as it is not known; then the deepest margin of the blank lines
decides, if it is at least `least`. -/
def scan? (folded : Bool) (chomping : Chomping) (least : Nat) (place : Place)
    (indent deepest : Nat) (progress : Progress) (position : Position) :
    List Char → Option Scanned
  | [] => some ⟨progress.finish chomping, ⟨position, []⟩, true⟩
  | character :: rest =>
    match place with
    | .line =>
      if isBreak character then
        scan? folded chomping least .margin indent deepest
          { progress with leading := some character } position.nextLine rest
      else
        scan? folded chomping least .line indent deepest
          { progress with text := character :: progress.text } (position.next character) rest
    | .margin =>
      let inMargin := indent = 0 || decide (position.column < indent)
      if character = ' ' && inMargin then
        scan? folded chomping least .margin indent (max deepest (position.column + 1)) progress
          (position.next character) rest
      else if character = '\t' && inMargin then none
      else if isBreak character then
        scan? folded chomping least .margin indent deepest
          { progress with trailing := progress.trailing ++ [character] } position.nextLine rest
      else
        let found := if indent = 0 then max deepest least else indent
        if position.column = found then
          scan? folded chomping least .line found deepest (progress.beginLine folded character)
            (position.next character) rest
        else some ⟨progress.finish chomping, ⟨position, character :: rest⟩, true⟩

/-- Reads a block scalar behind its indicator, inside a collection of the given indentation. -/
def read? (folded : Bool) (parent : Int) (cursor : Cursor) : Option Scanned := do
  let (found, rest) := header cursor.rest
  if found.increment = some 0 then none
  else
    let opening := cursor.advance (cursor.rest.length - rest.length)
    let start ← opening.endLine?
    let least := (parent + 1).toNat
    let indent :=
      match found.increment with
      | some increment => if 0 ≤ parent then parent.toNat + increment else increment
      | none => 0
    scan? folded found.chomping (max least 1) .margin indent 0 {} start.toPosition start.rest

end Block

end Yaml

end ScopedSchema
