import ScopedSchema.Document.Json.Writer

/-!
The text of Zod expressions. An expression is kept as the text that is printed for it; the
functions here are the only ones that put such text together.
-/

namespace ScopedSchema

structure Expr where
  text : String
  deriving DecidableEq

/-- A name that may stand as it is: letters, digits, underscores and dollar signs of ASCII, and no
digit first. -/
def isBareIdentifier (name : String) : Bool :=
  let isStart (character : Char) : Bool := character.isAlpha || character = '_' || character = '$'
  match name.toList with
  | [] => false
  | first :: rest =>
    isStart first && rest.all fun character => isStart character || character.isDigit

namespace ObjectKey

def escape (character : Char) : List Char :=
  if character = '\\' ∨ character = '\'' then ['\\', character] else [character]

/-- A name that is no bare identifier is written between single quotes. -/
def encode (name : String) : String :=
  if isBareIdentifier name then name
  else String.ofList ('\'' :: name.toList.flatMap escape ++ ['\''])

end ObjectKey

namespace Expr

def any : Expr := ⟨"z.any()"⟩

def string : Expr := ⟨"z.string()"⟩

def number : Expr := ⟨"z.number()"⟩

def boolean : Expr := ⟨"z.boolean()"⟩

def enumeration (values : List String) : Expr :=
  ⟨"z.enum(" ++ Json.listText (values.map Quoted.encode) ++ ")"⟩

def array (element : Expr) : Expr := ⟨"z.array(" ++ element.text ++ ")"⟩

def member (entry : String × Expr) : String :=
  ObjectKey.encode entry.1 ++ ": " ++ entry.2.text

def object (entries : List (String × Expr)) : Expr :=
  if entries.isEmpty then ⟨"z.object(\x7b\x7d)"⟩
  else ⟨"z.object(\x7b " ++ ", ".intercalate (entries.map member) ++ " \x7d)"⟩

def nullishSuffix : String := ".nullish()"

def isNullish (expr : Expr) : Bool := nullishSuffix.toList.isSuffixOf expr.text.toList

/-- Text that already ends in the suffix is left alone. -/
def nullish (expr : Expr) : Expr :=
  if expr.isNullish then expr else ⟨expr.text ++ nullishSuffix⟩

/-- A message is carried by a refinement that always holds. -/
def withMessage (expr : Expr) (message : String) : Expr :=
  ⟨expr.text ++ ".refine((val) => true, \x7b message: " ++ Quoted.encode message ++ " \x7d)"⟩

end Expr

end ScopedSchema
