import ScopedSchema.Text.Visible

/-!
Spelled text, as messages show it: between quotation marks, with every character that does not show
on its own spelled by its code.
-/

namespace ScopedSchema

namespace Spelled

def code (character : Char) : List Char :=
  ['\\', 'u', '\x7b'] ++ Nat.toDigits 16 character.toNat ++ ['\x7d']

def escape (character : Char) : List Char :=
  if character = '"' then ['\\', '"']
  else if character = '\\' then ['\\', '\\']
  else if character = '\n' then ['\\', 'n']
  else if character = '\r' then ['\\', 'r']
  else if character = '\t' then ['\\', 't']
  else if character = '\x00' then ['\\', '0']
  else if Visible.isVisible character then [character]
  else code character

def encode (text : String) : String :=
  String.ofList ('"' :: text.toList.flatMap escape ++ ['"'])

end Spelled

end ScopedSchema
