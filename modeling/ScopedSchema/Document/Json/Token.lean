import ScopedSchema.Document.Numeral
import ScopedSchema.Document.Value

/-!
Tokens of a JSON text: punctuation, and the values that hold no others. The text is read once from
left to right; what stands unfinished is kept in a mode.
-/

namespace ScopedSchema

namespace Json

inductive Token where
  | openList | closeList | openTable | closeTable | colon | comma
  | string (value : Value)
  | plain (value : Value)

/-- A character of a string literal, or a 16-bit code that an escape gives. -/
inductive Piece where
  | character (character : Char)
  | code (code : Nat)

inductive Mode where
  | between
  | word (letters : List Char)
  | numeral (characters : List Char)
  | string (pieces : List Piece)
  | escape (pieces : List Piece)
  | hex (pieces : List Piece) (missing : Nat) (code : Nat)

namespace Token

def isBlank (character : Char) : Bool := [' ', '\n', '\t', '\r'].contains character

def isNumeralPart (character : Char) : Bool :=
  character.isDigit || ['-', '+', '.', 'e', 'E'].contains character

def punctuation? : Char → Option Token
  | '[' => some .openList
  | ']' => some .closeList
  | '\x7b' => some .openTable
  | '\x7d' => some .closeTable
  | ':' => some .colon
  | ',' => some .comma
  | _ => none

def ofWord? (letters : List Char) : Option Token :=
  if letters = "null".toList then some (.plain .null)
  else if letters = "true".toList then some (.plain (.bool true))
  else if letters = "false".toList then some (.plain (.bool false))
  else none

/-- A numeral too large for a double has no value. -/
def ofNumeral? (characters : List Char) : Option Token :=
  ((Numeral.read? characters).filter Numeral.isStrict).map fun numeral =>
    match numeral.natural? with
    | some number => .plain (.natural number)
    | none => .plain (if numeral.isFiniteRounded then .number true else .unreadable)

def isHighSurrogate (code : Nat) : Bool := 0xD800 ≤ code && code < 0xDC00

def isLowSurrogate (code : Nat) : Bool := 0xDC00 ≤ code && code < 0xE000

/-- Joins surrogate pairs. A surrogate on its own is no character. -/
def joinPieces? : List Piece → Option (List Char)
  | [] => some []
  | .character character :: rest => (joinPieces? rest).map (character :: ·)
  | .code high :: .code low :: rest =>
    if isHighSurrogate high then
      if isLowSurrogate low then
        (joinPieces? rest).map
          (Char.ofNat (0x10000 + (high - 0xD800) * 0x400 + (low - 0xDC00)) :: ·)
      else none
    else if isLowSurrogate high then none
    else (joinPieces? (.code low :: rest)).map (Char.ofNat high :: ·)
  | .code code :: rest =>
    if isHighSurrogate code || isLowSurrogate code then none
    else (joinPieces? rest).map (Char.ofNat code :: ·)

def ofPieces (pieces : List Piece) : Token :=
  match joinPieces? pieces with
  | some characters => .string (.string (String.ofList characters))
  | none => .string .unreadable

def escaped? : Char → Option Char
  | '"' => some '"'
  | '\\' => some '\\'
  | '/' => some '/'
  | 'b' => some '\x08'
  | 'f' => some '\x0c'
  | 'n' => some '\n'
  | 'r' => some '\r'
  | 't' => some '\t'
  | _ => none

def hexValue? (character : Char) : Option Nat :=
  if character.isDigit then some (character.toNat - 48)
  else if 'a' ≤ character ∧ character ≤ 'f' then some (character.toNat - 87)
  else if 'A' ≤ character ∧ character ≤ 'F' then some (character.toNat - 55)
  else none

/-- The mode after a character that no earlier token takes in. -/
def start? (character : Char) : Option (List Token × Mode) :=
  if isBlank character then some ([], .between)
  else if character = '"' then some ([], .string [])
  else if isNumeralPart character then some ([], .numeral [character])
  else if character.isAlpha then some ([], .word [character])
  else (punctuation? character).map fun token => ([token], .between)

/-- Takes one character: the tokens that it completes, and the mode behind it. -/
def advance? (character : Char) : Mode → Option (List Token × Mode)
  | .between => start? character
  | .word letters =>
    if character.isAlpha then some ([], .word (character :: letters))
    else do
      let token ← ofWord? letters.reverse
      let (tokens, mode) ← start? character
      return (token :: tokens, mode)
  | .numeral characters =>
    if isNumeralPart character then some ([], .numeral (character :: characters))
    else do
      let token ← ofNumeral? characters.reverse
      let (tokens, mode) ← start? character
      return (token :: tokens, mode)
  | .string pieces =>
    if character = '"' then some ([ofPieces pieces.reverse], .between)
    else if character = '\\' then some ([], .escape pieces)
    else if character.toNat < 32 then none
    else some ([], .string (.character character :: pieces))
  | .escape pieces =>
    if character = 'u' then some ([], .hex pieces 4 0)
    else (escaped? character).map fun meant => ([], .string (.character meant :: pieces))
  | .hex pieces missing code => do
    let digit ← hexValue? character
    let next := code * 16 + digit
    return ([], if missing = 1 then .string (.code next :: pieces)
      else .hex pieces (missing - 1) next)

/-- The end of the text closes a word or a numeral, but not a string. -/
def finish? : Mode → Option (List Token)
  | .between => some []
  | .word letters => (ofWord? letters.reverse).map ([·])
  | .numeral characters => (ofNumeral? characters.reverse).map ([·])
  | _ => none

def scan? : Mode → List Char → Option (List Token)
  | mode, [] => finish? mode
  | mode, character :: rest => do
    let (tokens, next) ← advance? character mode
    return tokens ++ (← scan? next rest)

end Token

end Json

end ScopedSchema
