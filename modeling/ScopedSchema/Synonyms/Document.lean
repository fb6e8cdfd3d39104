import ScopedSchema.Document.Json.Writer
import ScopedSchema.Document.Record
import ScopedSchema.Document.Shape
import ScopedSchema.Synonyms

/-!
Synonym documents: a table from canonical names to lists of aliases.
-/

namespace ScopedSchema

namespace Synonyms

def ofValue? (value : Value) : Option Synonyms :=
  (value.nameTable? (Value.listOf? Value.text?)).map Synonyms.mk

def shape : Shape := .table (.list .text)

def layout : Layout Synonyms := ⟨shape, ofValue?⟩

def jsonText (synonyms : Synonyms) : String :=
  Json.tableText (synonyms.aliases.entries.map fun entry =>
    (entry.1, Json.listText (entry.2.map Quoted.encode)))

end Synonyms

end ScopedSchema
