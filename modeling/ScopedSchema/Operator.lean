/-!
Query operators that stand as segments of a path.
-/

namespace ScopedSchema

inductive Operator where
  | logical | quantifier | pagination | stringMatch | membership | comparison
  deriving DecidableEq

namespace Operator

def names : Operator → List String
  | logical => ["AND", "OR", "NOT"]
  | quantifier => ["some", "every", "none"]
  | pagination => ["take", "skip", "limit"]
  | stringMatch => ["contains", "startsWith", "endsWith", "search"]
  | membership => ["in", "notIn"]
  | comparison => ["equals", "lt", "lte", "gt", "gte", "not"]

def all : List Operator :=
  [logical, quantifier, pagination, stringMatch, membership, comparison]

def ofKey? (key : String) : Option Operator :=
  all.find? fun operator => operator.names.contains key

end Operator

end ScopedSchema
