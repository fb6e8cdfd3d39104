import ScopedSchema.Text.Separated

/-!
Dotted paths. A path is text whose segments stand between dots, so every text has at least one
segment and the empty text has exactly the empty one. A segment may carry list markers, which
comparisons leave out.
-/

namespace ScopedSchema

namespace Path

def segments (path : String) : List String := (Separated.split '.' path.toList).map String.ofList

def ofSegments (segments : List String) : String :=
  String.ofList (Separated.join '.' (segments.map String.toList))

theorem ofSegments_segments (path : String) : ofSegments (segments path) = path := by
  simp [ofSegments, segments, Function.comp_def, Separated.join_split]

/-- Drops every adjacent pair of brackets, in one pass from left to right. -/
def dropMarkers : List Char → List Char
  | '[' :: ']' :: rest => dropMarkers rest
  | character :: rest => character :: dropMarkers rest
  | [] => []

/-- The name that a segment stands for: its text without list markers. -/
def keyOf (segment : String) : String := String.ofList (dropMarkers segment.toList)

def endsInMarker (segment : String) : Bool := ['[', ']'].isSuffixOf segment.toList

def keys (path : String) : List String := (segments path).map keyOf

def normalize (path : String) : String := ofSegments (keys path)

/-- Appends below `path`. Below the empty path stands the appended text alone. -/
def child (path segment : String) : String :=
  if path.isEmpty then segment else path ++ "." ++ segment

theorem segments_child (path segment : String) :
    segments (child path segment) =
      if path.isEmpty then segments segment else segments path ++ segments segment := by
  unfold child
  split
  · rfl
  · simp [segments, String.toList_append, Separated.split_append_separator]

end Path

end ScopedSchema
