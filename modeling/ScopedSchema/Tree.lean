import ScopedSchema.Table
import ScopedSchema.Zod.Expr

/-!
Schema trees. Every allow list entry contributes a small tree; the trees of a target are merged
into one, which is printed once. In a merge the right side wins unless both sides are objects,
which merge member by member, or arrays, which append; a nullable wrapper of either side stays.
-/

namespace ScopedSchema

inductive Tree where
  | leaf (expr : Expr)
  | object (members : List (String × Tree))
  | array (elements : List Tree)
  | optional (inner : Tree)

namespace Tree

mutual

def decEq : (first second : Tree) → Decidable (first = second)
  | .leaf expr, .leaf other => decidable_of_iff (expr = other) (by rw [leaf.injEq])
  | .object members, .object others =>
    have := decEqMembers members others
    decidable_of_iff (members = others) (by rw [object.injEq])
  | .array elements, .array others =>
    have := decEqElements elements others
    decidable_of_iff (elements = others) (by rw [array.injEq])
  | .optional inner, .optional other =>
    have := decEq inner other
    decidable_of_iff (inner = other) (by rw [optional.injEq])
  | .leaf _, .object _ | .leaf _, .array _ | .leaf _, .optional _
  | .object _, .leaf _ | .object _, .array _ | .object _, .optional _
  | .array _, .leaf _ | .array _, .object _ | .array _, .optional _
  | .optional _, .leaf _ | .optional _, .object _ | .optional _, .array _ => isFalse nofun

def decEqMembers : (members others : List (String × Tree)) → Decidable (members = others)
  | [], [] => isTrue rfl
  | [], _ :: _ | _ :: _, [] => isFalse nofun
  | (name, tree) :: rest, (name', tree') :: rest' =>
    have := decEq tree tree'
    have := decEqMembers rest rest'
    decidable_of_iff ((name = name' ∧ tree = tree') ∧ rest = rest')
      (by rw [List.cons.injEq, Prod.mk.injEq])

def decEqElements : (elements others : List Tree) → Decidable (elements = others)
  | [], [] => isTrue rfl
  | [], _ :: _ | _ :: _, [] => isFalse nofun
  | tree :: rest, tree' :: rest' =>
    have := decEq tree tree'
    have := decEqElements rest rest'
    decidable_of_iff (tree = tree' ∧ rest = rest') (by rw [List.cons.injEq])

end

instance : DecidableEq Tree := decEq

def emptyObject : Tree := .object []

instance : Inhabited Tree := ⟨emptyObject⟩

def single (key : String) (value : Tree) : Tree := .object [(key, value)]

def listOf (element : Tree) : Tree := .array [element]

/-- Wraps a tree that is not nullable yet. -/
def asOptional : Tree → Tree
  | .optional inner => .optional inner
  | tree => .optional tree

def members? : Tree → Option (List (String × Tree))
  | .object members => some members
  | _ => none

/-- Removes one nullable wrapper, if there is one. -/
def dropWrapper : Tree → Tree
  | .optional inner => inner
  | tree => tree

/-- Changes the tree inside all nullable wrappers. -/
def mapCore (change : Tree → Tree) : Tree → Tree
  | .optional inner => .optional (mapCore change inner)
  | core => change core

/-- Removes the first entry of that name. -/
def eraseEntry (name : String) (entries : List (String × Tree)) : List (String × Tree) :=
  entries.eraseP fun entry => entry.1 == name

mutual

def merge : Tree → Tree → Tree
  | .optional left, right => .optional (merge left right.dropWrapper)
  | .leaf _, right => right
  | .array left, right => right.mapCore fun core =>
    match core with
    | .array elements => .array (left ++ elements)
    | other => other
  | .object left, right => right.mapCore fun core =>
    match core with
    | .object members => .object (mergeMembers left members)
    | other => other

/-- Members of the left side are merged with their namesakes on the right; what then remains on the
right is new and comes last. -/
def mergeMembers : List (String × Tree) → List (String × Tree) → List (String × Tree)
  | [], right => right
  | (name, value) :: rest, right =>
    match right.lookup name with
    | some other => (name, merge value other) :: mergeMembers rest (eraseEntry name right)
    | none => (name, value) :: mergeMembers rest right

end

/-- All trees merged from left to right, if there is one. -/
def mergeAll : List Tree → Option Tree
  | [] => none
  | first :: rest => some (rest.foldl merge first)

@[simp] theorem merge_optional_left (left right : Tree) :
    merge (.optional left) right = .optional (merge left right.dropWrapper) := by
  rw [merge]

@[simp] theorem merge_leaf (expr : Expr) (right : Tree) : merge (.leaf expr) right = right := by
  rw [merge]

theorem merge_array_array (left right : List Tree) :
    merge (.array left) (.array right) = .array (left ++ right) := by
  rw [merge, mapCore]
  exact fun _ => Tree.noConfusion

theorem merge_object_object (left right : List (String × Tree)) :
    merge (.object left) (.object right) = .object (mergeMembers left right) := by
  rw [merge, mapCore]
  exact fun _ => Tree.noConfusion

/-- A nullable wrapper on the right comes out, whatever stands on the left. -/
theorem merge_optional_right (left right : Tree) :
    merge left (.optional right) = .optional (merge left.dropWrapper right) := by
  cases left with
  | leaf expr => simp [dropWrapper]
  | object members => simp [merge, mapCore, dropWrapper]
  | array elements => simp [merge, mapCore, dropWrapper]
  | optional inner =>
    simp only [merge_optional_left, dropWrapper]

end Tree

end ScopedSchema
