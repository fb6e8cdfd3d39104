import ScopedSchema.Text.Quoted

/-!
Writing compact JSON, from texts of JSON.
-/

namespace ScopedSchema

namespace Json

def listText (items : List String) : String := "[" ++ ",".intercalate items ++ "]"

def memberText (member : String × String) : String := Quoted.encode member.1 ++ ":" ++ member.2

def tableText (members : List (String × String)) : String :=
  "\x7b" ++ ",".intercalate (members.map memberText) ++ "\x7d"

def flagText (flag : Bool) : String := if flag then "true" else "false"

end Json

end ScopedSchema
