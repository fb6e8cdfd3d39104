import ScopedSchema.Document.Yaml.Property
import ScopedSchema.Document.Yaml.Scalar.Block
import ScopedSchema.Document.Yaml.Scalar.Plain

/-!
The lexer of YAML. A colon makes a key of the node before it, so the lexer remembers, for each level
of flow brackets, where the last node that may be a key begins. The token that marks the key, and
the one that opens its mapping, are put in there.
-/

namespace ScopedSchema

namespace Yaml

/-- A node that becomes a key if a colon follows. -/
structure Candidate where
  /-- The node stands where the enclosing mapping expects a key. -/
  required : Bool
  /-- The number of tokens before it. -/
  index : Nat
  position : Position

structure Lexer where
  cursor : Cursor
  /-- The tokens so far, last first. -/
  tokens : List Token := []
  count : Nat := 0
  /-- One for each level, innermost first; outside all brackets there is one. -/
  candidates : List (Option Candidate) := [none]
  /-- The column of the innermost block collection. -/
  indent : Int := -1
  /-- The columns of the collections around it. -/
  outer : List Int := []
  /-- A node that begins here may be a key. -/
  keyAllowed : Bool := true

namespace Lexer

def inFlow (lexer : Lexer) : Bool := decide (1 < lexer.candidates.length)

def push (lexer : Lexer) (token : Token) : Lexer :=
  { lexer with tokens := token :: lexer.tokens, count := lexer.count + 1 }

/-- Puts a token in behind the first tokens, as many as the index says. -/
def insert (lexer : Lexer) (index : Nat) (token : Token) : Lexer :=
  let later := lexer.count - index
  { lexer with
    tokens := lexer.tokens.take later ++ token :: lexer.tokens.drop later
    count := lexer.count + 1 }

def withCandidate (lexer : Lexer) (candidate : Option Candidate) : Lexer :=
  { lexer with candidates := candidate :: lexer.candidates.tail }

/-- Gives up the innermost candidate. -/
def dropCandidate? (lexer : Lexer) : Option Lexer :=
  if lexer.candidates.head?.join.any Candidate.required then none
  else some (lexer.withCandidate none)

def saveCandidate? (lexer : Lexer) : Option Lexer :=
  if lexer.keyAllowed then
    lexer.dropCandidate?.map fun dropped =>
      dropped.withCandidate (some {
        required := !lexer.inFlow && decide (lexer.indent = lexer.cursor.column)
        index := lexer.count
        position := lexer.cursor.toPosition })
  else some lexer

/-- A key ends on its line, within 1024 bytes. -/
def isStale (position : Position) (candidate : Candidate) : Bool :=
  decide (candidate.position.line < position.line) ||
    decide (candidate.position.offset + 1024 < position.offset)

def dropStale? (lexer : Lexer) : Option Lexer :=
  let position := lexer.cursor.toPosition
  if lexer.candidates.any fun level =>
      level.any fun candidate => candidate.required && isStale position candidate then none
  else some { lexer with
    candidates := lexer.candidates.map fun level =>
      level.filter fun candidate => !isStale position candidate }

/-- Opens a block collection, if the column is deeper than the innermost one. -/
def roll (lexer : Lexer) (column index : Nat) (token : Token) : Lexer :=
  if !lexer.inFlow && decide (lexer.indent < column) then
    { lexer.insert index token with indent := column, outer := lexer.indent :: lexer.outer }
  else lexer

def closeTo (column : Int) (lexer : Lexer) : List Int → Lexer
  | [] => lexer
  | next :: outer =>
    if column < lexer.indent then
      closeTo column { lexer.push .blockEnd with indent := next, outer := outer } outer
    else lexer

/-- Closes the block collections that are deeper than the column. -/
def unroll (lexer : Lexer) (column : Int) : Lexer :=
  if lexer.inFlow then lexer else lexer.closeTo column lexer.outer

/-- Passes blanks, comments and line breaks. A tab at the start of a line is no blank. A byte order
mark begins a line and takes a column there, also at the start of the text. -/
def skip (inFlow keyAllowed inComment : Bool) (position : Position) : List Char → Bool × Cursor
  | [] => (keyAllowed, ⟨position, []⟩)
  | character :: rest =>
    if isBreak character then skip inFlow (keyAllowed || !inFlow) false position.nextLine rest
    else if inComment then skip inFlow keyAllowed true (position.next character) rest
    else if character = ' ' || (character = '\t' && (inFlow || !keyAllowed)) ||
        (character = byteOrderMark && position.column = 0) then
      skip inFlow keyAllowed false (position.next character) rest
    else if character = '#' then skip inFlow keyAllowed true (position.next character) rest
    else (keyAllowed, ⟨position, character :: rest⟩)

def toNextToken (lexer : Lexer) : Lexer :=
  let (keyAllowed, cursor) :=
    skip lexer.inFlow lexer.keyAllowed false lexer.cursor.toPosition lexer.cursor.rest
  { lexer with keyAllowed := keyAllowed, cursor := cursor }

/-- Takes an indicator as a token of its own. -/
def take (lexer : Lexer) (count : Nat) (token : Token) (keyAllowed : Bool) : Lexer :=
  { lexer.push token with
    cursor := lexer.cursor.advance count
    keyAllowed := keyAllowed }

def takeScanned (lexer : Lexer) (token : Token) (cursor : Cursor) (keyAllowed : Bool) : Lexer :=
  { lexer.push token with cursor := cursor, keyAllowed := keyAllowed }

def directive? (lexer : Lexer) : Option Lexer := do
  let lexer ← (lexer.unroll (-1)).dropCandidate?
  let (token, cursor) ← Property.directive? lexer.cursor
  return lexer.takeScanned token cursor false

def documentMarker? (lexer : Lexer) (token : Token) : Option Lexer := do
  let lexer ← (lexer.unroll (-1)).dropCandidate?
  return lexer.take 3 token false

def openFlow? (lexer : Lexer) (token : Token) : Option Lexer := do
  let lexer ← lexer.saveCandidate?
  return { lexer with candidates := none :: lexer.candidates }.take 1 token true

def closeFlow? (lexer : Lexer) (token : Token) : Option Lexer := do
  let lexer ← lexer.dropCandidate?
  return { lexer with
    candidates := if lexer.inFlow then lexer.candidates.tail else lexer.candidates }.take 1 token
      false

def flowEntry? (lexer : Lexer) : Option Lexer := do
  return (← lexer.dropCandidate?).take 1 .flowEntry true

def blockEntry? (lexer : Lexer) : Option Lexer :=
  if lexer.inFlow || lexer.keyAllowed then do
    let lexer := lexer.roll lexer.cursor.column lexer.count .blockSequence
    return (← lexer.dropCandidate?).take 1 .blockEntry true
  else none

def key? (lexer : Lexer) : Option Lexer :=
  if lexer.inFlow || lexer.keyAllowed then do
    let lexer := lexer.roll lexer.cursor.column lexer.count .blockMapping
    return (← lexer.dropCandidate?).take 1 .key (!lexer.inFlow)
  else none

def value? (lexer : Lexer) : Option Lexer :=
  match lexer.candidates.head?.join with
  | some candidate =>
    let marked := lexer.insert candidate.index .key
    let rolled := marked.roll candidate.position.column candidate.index .blockMapping
    some ((rolled.withCandidate none).take 1 .value false)
  | none =>
    if lexer.inFlow || lexer.keyAllowed then
      some ((lexer.roll lexer.cursor.column lexer.count .blockMapping).take 1 .value
        (!lexer.inFlow))
    else none

def name? (lexer : Lexer) (token : String → Token) : Option Lexer := do
  let lexer ← lexer.saveCandidate?
  let (name, cursor) ← Property.name? (lexer.cursor.advance 1)
  return lexer.takeScanned (token name) cursor false

def tag? (lexer : Lexer) : Option Lexer := do
  let lexer ← lexer.saveCandidate?
  let (tag, cursor) ← Property.tag? lexer.cursor lexer.inFlow
  return lexer.takeScanned (.tag tag) cursor false

def blockScalar? (lexer : Lexer) (folded : Bool) : Option Lexer := do
  let lexer ← lexer.dropCandidate?
  let scanned ← Block.read? folded lexer.indent (lexer.cursor.advance 1)
  return lexer.takeScanned (.scalar (if folded then .folded else .literal) scanned.text)
    scanned.cursor true

def quoted? (lexer : Lexer) (double : Bool) : Option Lexer := do
  let lexer ← lexer.saveCandidate?
  let inner := lexer.cursor.advance 1
  let scanned ←
    if double then Quote.scanDouble? .plain [] .none inner.toPosition inner.rest
    else Quote.scanSingle? [] .none inner.toPosition inner.rest
  return lexer.takeScanned (.scalar .quoted scanned.text) scanned.cursor false

def plain? (lexer : Lexer) : Option Lexer := do
  let lexer ← lexer.saveCandidate?
  let cursor := lexer.cursor
  let scanned ←
    Plain.scan? lexer.inFlow (lexer.indent + 1) [] .none cursor.toPosition cursor.rest
  return lexer.takeScanned (.scalar .plain scanned.text) scanned.cursor scanned.crossesLine

/-- Characters that never begin a plain scalar. -/
def isReserved (character : Char) : Bool :=
  ['-', '?', ':', ',', '[', ']', '\x7b', '\x7d', '#', '&', '*', '!', '|', '>', '\'', '"', '%', '@',
    '\x60'].contains character

/-- The token that begins with the given character. -/
def dispatch? (lexer : Lexer) (character : Char) (rest : List Char) : Option Lexer :=
  let inFlow := lexer.inFlow
  match character with
  | '[' => lexer.openFlow? .flowSequence
  | '\x7b' => lexer.openFlow? .flowMapping
  | ']' => lexer.closeFlow? .flowSequenceEnd
  | '\x7d' => lexer.closeFlow? .flowMappingEnd
  | ',' => lexer.flowEntry?
  | '-' => if atGap rest then lexer.blockEntry? else lexer.plain?
  | '?' => if inFlow || atGap rest then lexer.key? else lexer.plain?
  | ':' => if inFlow || atGap rest then lexer.value? else lexer.plain?
  | '*' => lexer.name? .alias
  | '&' => lexer.name? .anchor
  | '!' => lexer.tag?
  | '|' => if inFlow then none else lexer.blockScalar? false
  | '>' => if inFlow then none else lexer.blockScalar? true
  | '\'' => lexer.quoted? false
  | '"' => lexer.quoted? true
  | _ => if isReserved character || isBlank character then none else lexer.plain?

def token? (lexer : Lexer) (character : Char) (rest : List Char) : Option Lexer :=
  if lexer.cursor.column = 0 && character = '%' then lexer.directive?
  else if lexer.cursor.column = 0 && atDocumentMarker (character :: rest) then
    lexer.documentMarker? (if character = '-' then .documentStart else .documentEnd)
  else lexer.dispatch? character rest

/-- Every token takes at least one character, so the length of the text is fuel enough. -/
def scan? : Nat → Lexer → Option (List Token)
  | 0, _ => none
  | fuel + 1, lexer => do
    let fresh ← lexer.toNextToken.dropStale?
    let lexer := fresh.unroll fresh.cursor.column
    match lexer.cursor.rest with
    | [] => (lexer.unroll (-1)).dropCandidate?.map fun ended => ended.tokens.reverse
    | character :: rest => scan? fuel (← lexer.token? character rest)

end Lexer

def tokens? (text : String) : Option (List Token) := do
  let characters ← prepare? text
  Lexer.scan? (characters.length + 1) { cursor := { rest := characters } }

end Yaml

end ScopedSchema
