import ScopedSchema.Document.Numeral
import ScopedSchema.Document.Value
import ScopedSchema.Document.Yaml.Node

/-!
What scalars mean where any value may stand: the core types of YAML. A tag decides, and without one
a plain scalar is a null, a flag or a number if it is written like one. Digits with a leading zero
are text.
-/

namespace ScopedSchema

namespace Yaml

namespace Word

def isNull (word : String) : Bool := ["null", "Null", "NULL", "~"].contains word

def flag? (word : String) : Option Bool :=
  if ["true", "True", "TRUE"].contains word then some true
  else if ["false", "False", "FALSE"].contains word then some false
  else none

def digitValue? (base : Nat) (character : Char) : Option Nat :=
  let value? :=
    if character.isDigit then some (character.toNat - 48)
    else if 'a' ≤ character ∧ character ≤ 'z' then some (character.toNat - 87)
    else if 'A' ≤ character ∧ character ≤ 'Z' then some (character.toNat - 55)
    else none
  value?.filter fun value => decide (value < base)

/-- At least one digit, and nothing else. -/
def digits? (base : Nat) (text : List Char) : Option Nat :=
  if text.isEmpty then none
  else text.foldlM (fun value character =>
    (digitValue? base character).map fun digit => value * base + digit) 0

/-- Digits in base ten, or in another base that two characters in front name. -/
def magnitude? : List Char → Option Nat
  | '0' :: 'x' :: rest => digits? 16 rest
  | '0' :: 'o' :: rest => digits? 8 rest
  | '0' :: 'b' :: rest => digits? 2 rest
  | text => digits? 10 text

def isPadded (text : List Char) : Bool :=
  decide (1 < text.length) && text.head? == some '0' && text.all Char.isDigit

/-- Integers of up to 64 bits are values; those of up to 128 bits are none; larger ones are no
integers. -/
def integer? (word : String) : Option Value :=
  let (sign, unsigned) := Numeral.splitSign word.toList
  if isPadded unsigned then none
  else
    (magnitude? unsigned).bind fun magnitude =>
      if sign = some '-' then
        if magnitude ≤ Nat.pow 2 63 then some (.number true)
        else if magnitude ≤ Nat.pow 2 127 then some .unreadable
        else none
      else if magnitude < Nat.pow 2 64 then some (.natural magnitude)
      else if magnitude < Nat.pow 2 128 then some .unreadable
      else none

def isInfinity (unsigned : List Char) : Bool :=
  [".inf", ".Inf", ".INF"].contains (String.ofList unsigned)

/-- A numeral that no double can hold is no number. -/
def float? (word : String) : Option Value :=
  if isInfinity (Numeral.splitSign word.toList).2 || [".nan", ".NaN", ".NAN"].contains word then
    some (.number false)
  else
    ((Numeral.read? word.toList).filter Numeral.isFinite).map fun _ => .number true

def untagged (word : String) : Value :=
  if word.isEmpty || isNull word then .null
  else
    match flag? word with
    | some flag => .bool flag
    | none =>
      match integer? word with
      | some integer => integer
      | none =>
        if isPadded (Numeral.splitSign word.toList).2 then .string word
        else (float? word).getD (.string word)

end Word

namespace Scalar

def untagged (scalar : Scalar) : Value :=
  if scalar.style = .plain then Word.untagged scalar.text else .string scalar.text

/-- A local tag has no meaning. Of the tags outside the core, those that an exclamation mark begins
change nothing, and the others make text. -/
def value? (scalar : Scalar) : Option Value :=
  match scalar.tag with
  | none => some scalar.untagged
  | some tag =>
    if tag.isLocal then none
    else if tag = .core "bool" then (Word.flag? scalar.text).map .bool
    else if tag = .core "int" then Word.integer? scalar.text
    else if tag = .core "float" then Word.float? scalar.text
    else if tag = .core "null" then if Word.isNull scalar.text then some .null else none
    else if tag.head? = some TagName.mark then some scalar.untagged
    else some (.string scalar.text)

/-- Flags are plain words, whatever their tag, or literal scalars with the tag of flags. -/
def flag? (scalar : Scalar) : Option Bool :=
  if scalar.style = .plain ∨
      (scalar.style = .literal ∧ scalar.tag = some (.core "bool")) then
    Word.flag? scalar.text
  else none

/-- Text, or nothing where a plain null stands. -/
def optionalText? (scalar : Scalar) : Option (Option String) :=
  if scalar.style = .plain then
    match scalar.tag with
    | some tag =>
      if tag = .core "null" then if Word.isNull scalar.text then some none else none
      else some (some scalar.text)
    | none =>
      some (if scalar.text.isEmpty || Word.isNull scalar.text then none else some scalar.text)
  else some (some scalar.text)

/-- Such a scalar stands for an empty collection where one is looked for. -/
def isVoid (scalar : Scalar) : Bool := scalar.style = .plain && scalar.text.isEmpty

end Scalar

end Yaml

end ScopedSchema
