import ScopedSchema.Document.Yaml.Text

/-!
Gaps inside scalars. Blanks within a line stand for themselves. Over a line break blanks vanish, a
single line feed becomes a space, and of several the first one vanishes.
-/

namespace ScopedSchema

namespace Yaml

inductive Gap where
  | blanks (characters : List Char)
  /-- The first line break, unless it was escaped, and the others. -/
  | breaks (first : Option Char) (others : List Char)

namespace Gap

def none : Gap := .blanks []

def isNone : Gap → Bool
  | .blanks [] => true
  | _ => false

def crossesLine : Gap → Bool
  | .blanks _ => false
  | .breaks _ _ => true

def addBlank (blank : Char) : Gap → Gap
  | .blanks characters => .blanks (characters ++ [blank])
  | gap => gap

def addBreak (lineBreak : Char) : Gap → Gap
  | .blanks _ => .breaks (some lineBreak) []
  | .breaks first others => .breaks first (others ++ [lineBreak])

def text : Gap → List Char
  | .blanks characters => characters
  | .breaks (some '\n') [] => [' ']
  | .breaks (some '\n') others => others
  | .breaks (some first) others => first :: others
  | .breaks .none others => others

end Gap

/-- What a scalar was read to, and the place behind it. -/
structure Scanned where
  text : String
  cursor : Cursor
  /-- A line ended on the way, so that what follows begins a line. -/
  crossesLine : Bool := false

end Yaml

end ScopedSchema
