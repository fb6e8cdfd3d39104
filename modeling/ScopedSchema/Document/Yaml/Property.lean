import ScopedSchema.Document.Yaml.Scalar.Quoted
import ScopedSchema.Document.Yaml.Token

/-!
What may stand before a node or a document: anchors, tags and directives.
-/

namespace ScopedSchema

namespace Yaml

namespace Property

def isAnchorEnd (rest : List Char) : Bool :=
  atGap rest || rest.head?.any fun character =>
    ['?', ':', ',', ']', '\x7d', '%', '@', '\x60'].contains character

/-- The name behind the sign of an anchor or an alias. -/
def name? (cursor : Cursor) : Option (String × Cursor) :=
  let (name, behind) := cursor.takeWhile isNamePart
  if !name.isEmpty && isAnchorEnd behind.rest then some (String.ofList name, behind) else none

def isUriPart (verbatim : Bool) (character : Char) : Bool :=
  isNamePart character ||
    [';', '/', '?', ':', '@', '&', '=', '+', '$', '.', '%', '!', '~', '*', '\'', '(', ')'].contains
      character ||
    (verbatim && [',', '[', ']'].contains character)

/-- The number of bytes of a character, by the first of them. -/
def sequenceLength? (byte : Nat) : Option Nat :=
  if byte < 0x80 then some 1
  else if byte < 0xC0 then none
  else if byte < 0xE0 then some 2
  else if byte < 0xF0 then some 3
  else if byte < 0xF8 then some 4
  else none

/-- How many bytes are missing behind this one, if it may stand where `missing` bytes were. -/
def missingBehind? (missing byte : Nat) : Option Nat :=
  if missing = 0 then (sequenceLength? byte).map fun length => length - 1
  else if byte / 0x40 = 2 then some (missing - 1)
  else none

/-- Replaces percent signs and the digits behind them by bytes. Whether the bytes are the shortest
form of a character, or of any, is left open. -/
def unescape? (missing : Nat) : List Char → Option (List UInt8)
  | [] => if missing = 0 then some [] else none
  | '%' :: high :: low :: rest => do
    let byte := (← Quote.hexValue? high) * 16 + (← Quote.hexValue? low)
    return UInt8.ofNat byte :: (← unescape? (← missingBehind? missing byte) rest)
  | character :: rest =>
    if missing = 0 && character != '%' then
      (unescape? 0 rest).map (String.utf8EncodeChar character ++ ·)
    else none

def uri? (verbatim : Bool) (cursor : Cursor) : Option (List UInt8 × Cursor) := do
  let (escaped, behind) := cursor.takeWhile (isUriPart verbatim)
  return (← unescape? 0 escaped, behind)

/-- An exclamation mark, a name and perhaps another exclamation mark. -/
def handle (cursor : Cursor) : List Char × Cursor :=
  let (name, behind) := (cursor.advance 1).takeWhile isNamePart
  if behind.next? = some '!' then ('!' :: name ++ ['!'], behind.advance 1)
  else ('!' :: name, behind)

def isFullHandle (handle : List Char) : Bool :=
  decide (2 ≤ handle.length) && handle.getLast? == some '!'

def verbatimTag? (cursor : Cursor) : Option (Tag × Cursor) := do
  let (suffix, behind) ← uri? true (cursor.advance 2)
  if !suffix.isEmpty && behind.next? = some '>' then
    return (⟨"", .ofBytes suffix⟩, behind.advance 1)
  else none

/-- The exclamation mark alone is a tag of its own. -/
def shorthandTag? (cursor : Cursor) : Option (Tag × Cursor) := do
  let (name, behind) := handle cursor
  let (suffix, last) ← uri? false behind
  if isFullHandle name then
    if suffix.isEmpty then none else return (⟨String.ofList name, .ofBytes suffix⟩, last)
  else
    let whole := TagName.ofText (String.ofList name.tail) ++ TagName.ofBytes suffix
    return (if whole.isEmpty then ⟨"", .ofText "!"⟩ else ⟨"!", whole⟩, last)

def tag? (cursor : Cursor) (inFlow : Bool) : Option (Tag × Cursor) := do
  let (tag, behind) ←
    if cursor.rest.tail.head? = some '<' then verbatimTag? cursor else shorthandTag? cursor
  if atGap behind.rest || (inFlow && behind.next? = some ',') then return (tag, behind) else none

def versionNumber? (cursor : Cursor) : Option (Nat × Cursor) :=
  let (digits, behind) := cursor.takeWhile Char.isDigit
  if digits.isEmpty || 9 < digits.length then none
  else some (digits.foldl (fun value digit => value * 10 + (digit.toNat - 48)) 0, behind)

def version? (cursor : Cursor) : Option (Token × Cursor) := do
  let (major, behind) ← versionNumber? (cursor.dropWhile isBlank)
  if behind.next? = some '.' then
    let (minor, last) ← versionNumber? (behind.advance 1)
    return (.version major minor, last)
  else none

def handleDefinition? (cursor : Cursor) : Option (Token × Cursor) := do
  let start := cursor.dropWhile isBlank
  if start.next? = some '!' then
    let (name, behind) := handle start
    let blank := behind.dropWhile isBlank
    let (leading, last) ← uri? true blank
    if (isFullHandle name || name.length = 1) && behind.rest.head?.any isBlank &&
        !leading.isEmpty && atGap last.rest then
      return (.handle (String.ofList name) (.ofBytes leading), last)
    else none
  else none

/-- A directive fills its line. -/
def directive? (cursor : Cursor) : Option (Token × Cursor) := do
  let (name, behind) := (cursor.advance 1).takeWhile isNamePart
  let (token, last) ←
    if !atGap behind.rest then none
    else if name = "YAML".toList then version? behind
    else if name = "TAG".toList then handleDefinition? behind
    else none
  return (token, ← last.endLine?)

end Property

end Yaml

end ScopedSchema
