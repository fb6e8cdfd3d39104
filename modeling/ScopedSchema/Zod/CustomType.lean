import ScopedSchema.AllowList
import ScopedSchema.Zod.Expr

/-!
Custom types of allow list entries. A named type is a word or a call such as `length(2,40)`, and a
question mark behind it makes it nullable. What is not recognised stands for any value.
-/

namespace ScopedSchema

namespace CustomType

/-- The text between the parentheses, when the whole text is a call of `name`. -/
def callArguments? (name text : List Char) : Option (List Char) :=
  let opening := name ++ ['(']
  if opening.isPrefixOf text then
    match (text.drop opening.length).reverse with
    | ')' :: reversed => some reversed.reverse
    | _ => none
  else none

def isDigits (text : List Char) : Bool := !text.isEmpty && text.all Char.isDigit

/-- Cuts at the first comma. -/
def splitComma? : List Char → Option (List Char × List Char)
  | [] => none
  | ',' :: rest => some ([], rest)
  | character :: rest =>
    (splitComma? rest).map fun halves => (character :: halves.1, halves.2)

def length (text : List Char) : Expr :=
  match (callArguments? "length".toList text).bind splitComma? with
  | some (low, high) =>
    if isDigits low && isDigits high then
      ⟨"z.string().min(" ++ String.ofList low ++ ").max(" ++ String.ofList high ++ ")"⟩
    else .any
  | none => .any

/-- The pattern begins and ends with a slash of its own. -/
def isPattern (text : List Char) : Bool :=
  decide (2 ≤ text.length) && text.head? == some '/' && text.getLast? == some '/'

def regex (text : List Char) : Expr :=
  match callArguments? "regex".toList text with
  | some pattern =>
    if isPattern pattern then ⟨"z.string().regex(" ++ String.ofList pattern ++ ")"⟩ else .any
  | none => .any

def bound? (method : String) (text : List Char) : Option Expr :=
  match callArguments? method.toList text with
  | some digits =>
    if isDigits digits then
      some ⟨"z.number()." ++ method ++ "(" ++ String.ofList digits ++ ")"⟩
    else none
  | none => none

def bound (text : List Char) : Expr :=
  ((bound? "min" text).or (bound? "max" text)).getD .any

def word (text : List Char) : Expr :=
  if text = "email".toList then ⟨"z.string().email()"⟩
  else if text = "uuid".toList then ⟨"z.string().uuid()"⟩
  else if text = "url".toList then ⟨"z.string().url()"⟩
  else if text = "currency".toList then ⟨"z.string().regex(/^[A-Z]\x7b3\x7d$/)"⟩
  else if text = "nonempty".toList then ⟨"z.string().min(1)"⟩
  else if text = "string".toList then .string
  else if text = "number".toList then .number
  else if text = "boolean".toList then .boolean
  else .any

/-- A text that begins with the name of a call is only ever read as that call. -/
def base (text : List Char) : Expr :=
  if "length".toList.isPrefixOf text then length text
  else if "regex".toList.isPrefixOf text then regex text
  else if "min".toList.isPrefixOf text || "max".toList.isPrefixOf text then bound text
  else word text

/-- Separates one question mark at the end. -/
def splitNullable (text : List Char) : List Char × Bool :=
  if text.getLast? = some '?' then (text.dropLast, true) else (text, false)

def named (name : String) : Expr :=
  let (text, nullable) := splitNullable name.toList
  if nullable then (base text).nullish else base text

end CustomType

/-- Of a list only the first item counts. -/
def TypeOverride.expr : TypeOverride → Expr
  | .named name => CustomType.named name
  | .list [] => .array .any
  | .list (item :: _) => .array item.expr
  | .object members => .object (memberExprs members)
  | .other _ => .any
where
  memberExprs : List (String × TypeOverride) → List (String × Expr)
    | [] => []
    | (name, type) :: rest => (name, type.expr) :: memberExprs rest

end ScopedSchema
