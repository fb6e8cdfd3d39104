import ScopedSchema.Document.Yaml.Text

/-!
Tokens of a YAML text. Block collections have no brackets; their tokens come from the indentation.
The end of the stream is the end of the list of tokens.
-/

namespace ScopedSchema

namespace Yaml

/-- How a scalar is written. -/
inductive Style where
  | plain | quoted | literal | folded
  deriving DecidableEq

/-- The name of a tag, byte by byte: escapes in it may give bytes that are no text. -/
abbrev TagName := List UInt8

namespace TagName

def ofText (text : String) : TagName := text.toList.flatMap String.utf8EncodeChar

/-- What stands in front of the first zero byte. -/
def ofBytes (bytes : List UInt8) : TagName := bytes.takeWhile fun byte => byte != 0

def mark : UInt8 := 33

/-- A local tag, which only the document itself knows, is an exclamation mark and text. -/
def isLocal : TagName → Bool
  | [] => false
  | first :: rest => first == mark && (String.fromUTF8? ⟨rest.toArray⟩).isSome

def core (name : String) : TagName := ofText ("tag:yaml.org,2002:" ++ name)

end TagName

/-- A tag as written: the handle names what stands before the suffix. A verbatim tag has no
handle. -/
structure Tag where
  handle : String
  suffix : TagName
  deriving DecidableEq

inductive Token where
  | version (major minor : Nat)
  | handle (name : String) (leading : TagName)
  | documentStart | documentEnd
  | blockSequence | blockMapping | blockEnd
  | flowSequence | flowSequenceEnd | flowMapping | flowMappingEnd
  | blockEntry | flowEntry | key | value
  | alias (name : String)
  | anchor (name : String)
  | tag (tag : Tag)
  | scalar (style : Style) (text : String)
  deriving DecidableEq

end Yaml

end ScopedSchema
