import ScopedSchema.Document.Json.Token

/-!
Reading JSON. The tokens are taken one by one; a stack holds the lists and tables that are still
open with what they hold so far, the last part first.
-/

namespace ScopedSchema

namespace Json

inductive Frame where
  | list (items : List Value)
  | table (entries : List (Value × Value))
  /-- A table that waits for the value of a key. -/
  | entry (entries : List (Value × Value)) (key : Value)

/-- What may stand next. -/
inductive Expected where
  | value
  | valueOrClose
  | key
  | keyOrClose
  | colon (key : Value)
  | commaOrClose
  | nothing (value : Value)

structure State where
  stack : List Frame
  expected : Expected

namespace State

def initial : State := ⟨[], .value⟩

/-- A list or table inside so many others has no value. -/
def depthLimit : Nat := 127

/-- Gives the innermost open list or table a value. -/
def complete? (value : Value) : List Frame → Option State
  | [] => some ⟨[], .nothing value⟩
  | .list items :: outer => some ⟨.list (value :: items) :: outer, .commaOrClose⟩
  | .entry entries key :: outer => some ⟨.table ((key, value) :: entries) :: outer, .commaOrClose⟩
  | .table _ :: _ => none

def sealed (value : Value) (outer : List Frame) : Value :=
  if depthLimit ≤ outer.length then .unreadable else value

def close? : Token → List Frame → Option State
  | .closeList, .list items :: outer => complete? (sealed (.list items.reverse) outer) outer
  | .closeTable, .table entries :: outer => complete? (sealed (.table entries.reverse) outer) outer
  | _, _ => none

def begin? (stack : List Frame) : Token → Option State
  | .openList => some ⟨.list [] :: stack, .valueOrClose⟩
  | .openTable => some ⟨.table [] :: stack, .keyOrClose⟩
  | .string value => complete? value stack
  | .plain value => complete? value stack
  | _ => none

def keyThen? (stack : List Frame) : Token → Option State
  | .string key => some ⟨stack, .colon key⟩
  | _ => none

def step? (state : State) (token : Token) : Option State :=
  match state.expected, token, state.stack with
  | .value, token, stack => begin? stack token
  | .valueOrClose, .closeList, stack => close? .closeList stack
  | .valueOrClose, token, stack => begin? stack token
  | .key, token, stack => keyThen? stack token
  | .keyOrClose, .closeTable, stack => close? .closeTable stack
  | .keyOrClose, token, stack => keyThen? stack token
  | .colon key, .colon, .table entries :: outer => some ⟨.entry entries key :: outer, .value⟩
  | .commaOrClose, .comma, .list items :: outer => some ⟨.list items :: outer, .value⟩
  | .commaOrClose, .comma, .table entries :: outer => some ⟨.table entries :: outer, .key⟩
  | .commaOrClose, token, stack => close? token stack
  | _, _, _ => none

def result? (state : State) : Option Value :=
  match state.expected with
  | .nothing value => some value
  | _ => none

end State

def ofTokens? (tokens : List Token) : Option Value :=
  (tokens.foldlM State.step? State.initial).bind State.result?

def read? (text : String) : Option Value :=
  (Token.scan? .between text.toList).bind ofTokens?

end Json

end ScopedSchema
