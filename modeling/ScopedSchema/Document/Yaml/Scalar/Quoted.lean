import ScopedSchema.Document.Yaml.Gap

/-!
Quoted scalars. Between single quotes a quote is written twice. Between double quotes a backslash
begins an escape.
-/

namespace ScopedSchema

namespace Yaml

namespace Quote

def escaped? : Char → Option Char
  | '0' => some '\x00'
  | 'a' => some '\x07'
  | 'b' => some '\x08'
  | 't' => some '\t'
  | '\t' => some '\t'
  | 'n' => some '\n'
  | 'v' => some '\x0b'
  | 'f' => some '\x0c'
  | 'r' => some '\r'
  | 'e' => some '\x1b'
  | ' ' => some ' '
  | '"' => some '"'
  | '/' => some '/'
  | '\\' => some '\\'
  | 'N' => some '\u0085'
  | '_' => some '\u00a0'
  | 'L' => some lineSeparator
  | 'P' => some paragraphSeparator
  | _ => none

/-- The number of hexadecimal digits behind an escape that gives a code. -/
def codeLength? : Char → Option Nat
  | 'x' => some 2
  | 'u' => some 4
  | 'U' => some 8
  | _ => none

def hexValue? (character : Char) : Option Nat :=
  if character.isDigit then some (character.toNat - 48)
  else if 'a' ≤ character ∧ character ≤ 'f' then some (character.toNat - 87)
  else if 'A' ≤ character ∧ character ≤ 'F' then some (character.toNat - 55)
  else none

def isCharacterCode (code : Nat) : Bool := code < 0xD800 || (0xE000 ≤ code && code ≤ 0x10FFFF)

/-- What an earlier character began. -/
inductive Mode where
  | plain
  | escape
  | code (missing value : Nat)

/-- Characters read so far are given last first. -/
def scanDouble? (mode : Mode) (text : List Char) (gap : Gap) (position : Position) :
    List Char → Option Scanned
  | [] => none
  | character :: rest =>
    let behind := position.next character
    match mode with
    | .code missing value =>
      match hexValue? character with
      | none => none
      | some digit =>
        let next := value * 16 + digit
        if 1 < missing then scanDouble? (.code (missing - 1) next) text gap behind rest
        else if isCharacterCode next then
          scanDouble? .plain (Char.ofNat next :: text) gap behind rest
        else none
    | .escape =>
      if isBreak character then scanDouble? .plain text (.breaks .none []) position.nextLine rest
      else
        match codeLength? character, escaped? character with
        | some length, _ => scanDouble? (.code length 0) text gap behind rest
        | none, some meant => scanDouble? .plain (meant :: text) gap behind rest
        | none, none => none
    | .plain =>
      if isBreak character then
        scanDouble? .plain text (gap.addBreak character) position.nextLine rest
      else if isBlank character then
        scanDouble? .plain text (gap.addBlank character) behind rest
      else if position.column = 0 && atDocumentMarker (character :: rest) then none
      else
        let joined := gap.text.reverse ++ text
        if character = '"' then some ⟨String.ofList joined.reverse, ⟨behind, rest⟩, false⟩
        else if character = '\\' then scanDouble? .escape joined .none behind rest
        else scanDouble? .plain (character :: joined) .none behind rest

def scanSingle? (text : List Char) (gap : Gap) (position : Position) :
    List Char → Option Scanned
  | [] => none
  | '\'' :: '\'' :: rest =>
    scanSingle? ('\'' :: (gap.text.reverse ++ text)) .none
      ((position.next '\'').next '\'') rest
  | character :: rest =>
    let behind := position.next character
    if isBreak character then scanSingle? text (gap.addBreak character) position.nextLine rest
    else if isBlank character then scanSingle? text (gap.addBlank character) behind rest
    else if position.column = 0 && atDocumentMarker (character :: rest) then none
    else
      let joined := gap.text.reverse ++ text
      if character = '\'' then some ⟨String.ofList joined.reverse, ⟨behind, rest⟩, false⟩
      else scanSingle? (character :: joined) .none behind rest

end Quote

end Yaml

end ScopedSchema
