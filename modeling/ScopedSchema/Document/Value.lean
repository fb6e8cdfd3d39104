/-!
What a document holds, whatever its format. A table keeps its keys in document order and keeps
repeated ones. Some parts of a text are well formed and yet have no value, such as a number too
large for a double; they do harm only to a reader that looks at them.
-/

namespace ScopedSchema

inductive Value where
  | null
  | bool (flag : Bool)
  | natural (number : Nat)
  /-- Any other number, of which only its finiteness counts. -/
  | number (isFinite : Bool)
  | string (text : String)
  | list (items : List Value)
  | table (entries : List (Value × Value))
  | unreadable

namespace Value

def text? : Value → Option String
  | .string text => some text
  | _ => none

def flag? : Value → Option Bool
  | .bool flag => some flag
  | _ => none

def items? : Value → Option (List Value)
  | .list items => some items
  | _ => none

mutual

/-- No part is unreadable. -/
def isReadable : Value → Bool
  | .list items => itemsReadable items
  | .table entries => entriesReadable entries
  | .unreadable => false
  | _ => true

def itemsReadable : List Value → Bool
  | [] => true
  | item :: rest => item.isReadable && itemsReadable rest

def entriesReadable : List (Value × Value) → Bool
  | [] => true
  | (key, value) :: rest => key.isReadable && value.isReadable && entriesReadable rest

end

mutual

/-- Every key inside is text. -/
def hasTextKeys : Value → Bool
  | .list items => itemsHaveTextKeys items
  | .table entries => entriesHaveTextKeys entries
  | _ => true

def itemsHaveTextKeys : List Value → Bool
  | [] => true
  | item :: rest => item.hasTextKeys && itemsHaveTextKeys rest

def entriesHaveTextKeys : List (Value × Value) → Bool
  | [] => true
  | (key, value) :: rest =>
    key.text?.isSome && value.hasTextKeys && entriesHaveTextKeys rest

end

end Value

end ScopedSchema
