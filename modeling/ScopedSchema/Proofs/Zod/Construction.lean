import ScopedSchema.Proofs.Zod.CustomType
import ScopedSchema.Zod.Leaf

/-!
# How expressions are put together

Every expression ends in a closing parenthesis. The text inside, whatever names, values, messages
and patterns it carries, is therefore never taken for the last call, and the end of the text tells
whether the outermost step made the expression nullable. So making an expression nullable is never
done twice in a row, and never left out.
-/

namespace ScopedSchema

open CustomType

/-- Only a name can be nullable of itself. -/
def TypeOverride.isNullable : TypeOverride → Bool
  | .named name => isNullableName name
  | _ => false

/-- The steps that an expression is put together by. -/
inductive Construction where
  | scalar (type : ScalarType)
  | custom (type : TypeOverride)
  | enumeration (values : List String)
  | array (element : Construction)
  | object (members : List (String × Construction))
  | nullish (inner : Construction)
  | refined (inner : Construction) (message : String)

namespace Construction

def expr : Construction → Expr
  | .scalar type => type.expr
  | .custom type => type.expr
  | .enumeration values => .enumeration values
  | .array element => .array element.expr
  | .object members => .object (memberExprs members)
  | .nullish inner => inner.expr.nullish
  | .refined inner message => inner.expr.withMessage message
where
  memberExprs : List (String × Construction) → List (String × Expr)
    | [] => []
    | (name, value) :: rest => (name, value.expr) :: memberExprs rest

/-- The outermost step makes the expression nullable. -/
def isNullish : Construction → Bool
  | .nullish _ => true
  | .custom type => type.isNullable
  | _ => false

/-- No step makes an expression nullable that was made so by the step before. -/
inductive Once : Construction → Prop
  | scalar (type : ScalarType) : Once (.scalar type)
  | custom (type : TypeOverride) : Once (.custom type)
  | enumeration (values : List String) : Once (.enumeration values)
  | array {element : Construction} : Once element → Once (.array element)
  | object {members : List (String × Construction)} : (∀ member ∈ members, Once member.2) →
      Once (.object members)
  | nullish {inner : Construction} : inner.isNullish = false → Once inner → Once (.nullish inner)
  | refined {inner : Construction} (message : String) : Once inner → Once (.refined inner message)

/-- How often an expression was made nullable, not counting what was done to its parts. -/
def nullishCount : Construction → Nat
  | .nullish inner => inner.nullishCount + 1
  | .refined inner _ => inner.nullishCount
  | .custom type => if type.isNullable then 1 else 0
  | _ => 0

theorem memberExprs_eq_map (members : List (String × Construction)) :
    expr.memberExprs members = members.map fun member => (member.1, member.2.expr) := by
  induction members with
  | nil => rfl
  | cons member rest induction =>
      rw [expr.memberExprs, induction]
      rfl

/-- Members of objects are parts like any others. -/
@[elab_as_elim]
theorem byParts {motive : Construction → Prop} (scalar : ∀ type, motive (.scalar type))
    (custom : ∀ type, motive (.custom type))
    (enumeration : ∀ values, motive (.enumeration values))
    (array : ∀ element, motive element → motive (.array element))
    (object : ∀ members, (∀ member ∈ members, motive member.2) → motive (.object members))
    (nullish : ∀ inner, motive inner → motive (.nullish inner))
    (refined : ∀ inner message, motive inner → motive (.refined inner message))
    (construction : Construction) : motive construction := by
  refine @Construction.rec motive (fun members => ∀ member ∈ members, motive member.2)
    (fun member => motive member.2) scalar custom enumeration array object nullish refined
    ?_ ?_ ?_ construction
  · intro member inside
    cases inside
  · intro first rest here later member inside
    rcases List.mem_cons.mp inside with rfl | inside
    · exact here
    · exact later member inside
  · intro name value here
    exact here

/-! ## The end of the text -/

theorem isNullish_customType (type : TypeOverride) : type.expr.isNullish = type.isNullable := by
  cases type with
  | named name => exact isNullish_named name
  | list items =>
      cases items with
      | nil => exact Expr.isNullish_array (Expr.closed_append "z.any(")
      | cons item others => exact Expr.isNullish_array item.closed_expr
  | object members => exact Expr.isNullish_object _
  | other kind => exact Expr.isNullish_any

theorem closed_expr (construction : Construction) : construction.expr.Closed := by
  cases construction with
  | scalar type => exact type.closed_expr
  | custom type => exact type.closed_expr
  | enumeration values => exact Expr.closed_enumeration values
  | array element => exact Expr.closed_array _
  | object members => exact Expr.closed_object _
  | nullish inner => exact Expr.closed_of_isNullish (Expr.isNullish_nullish _)
  | refined inner message => exact Expr.closed_withMessage _ message

theorem isNullish_expr (construction : Construction) :
    construction.expr.isNullish = construction.isNullish := by
  cases construction with
  | scalar type => exact type.isNullish_expr
  | custom type => exact isNullish_customType type
  | enumeration values => exact Expr.isNullish_enumeration values
  | array element => exact Expr.isNullish_array element.closed_expr
  | object members => exact Expr.isNullish_object _
  | nullish inner => exact Expr.isNullish_nullish _
  | refined inner message => exact Expr.isNullish_withMessage _ message

theorem nullish_expr (construction : Construction) :
    construction.expr.nullish =
      if construction.isNullish then construction.expr
      else ⟨construction.expr.text ++ ".nullish()"⟩ := by
  rw [Expr.nullish, isNullish_expr]
  rfl

/-! ## Once -/

/-- The same expression with no step repeated. -/
def settled : Construction → Construction
  | .scalar type => .scalar type
  | .custom type => .custom type
  | .enumeration values => .enumeration values
  | .array element => .array element.settled
  | .object members => .object (settledMembers members)
  | .nullish inner => if inner.isNullish then inner.settled else .nullish inner.settled
  | .refined inner message => .refined inner.settled message
where
  settledMembers : List (String × Construction) → List (String × Construction)
    | [] => []
    | (name, value) :: rest => (name, value.settled) :: settledMembers rest

theorem settledMembers_eq_map (members : List (String × Construction)) :
    settled.settledMembers members = members.map fun member => (member.1, member.2.settled) := by
  induction members with
  | nil => rfl
  | cons member rest induction =>
      rw [settled.settledMembers, induction]
      rfl

theorem isNullish_settled (construction : Construction) :
    construction.settled.isNullish = construction.isNullish := by
  induction construction using byParts with
  | scalar type => rfl
  | custom type => rfl
  | enumeration values => rfl
  | array element induction => rfl
  | object members induction => rfl
  | nullish inner induction =>
      rw [settled]
      split
      · rename_i nullable
        rw [induction, nullable]
        rfl
      · rfl
  | refined inner message induction => rfl

theorem expr_settled (construction : Construction) :
    construction.settled.expr = construction.expr := by
  induction construction using byParts with
  | scalar type => rfl
  | custom type => rfl
  | enumeration values => rfl
  | array element induction => rw [settled, expr, expr, induction]
  | object members induction =>
      rw [settled, expr, expr, settledMembers_eq_map, memberExprs_eq_map, memberExprs_eq_map,
        List.map_map]
      congr 1
      apply List.map_congr_left
      intro member inside
      exact congrArg (Prod.mk member.1) (induction member inside)
  | nullish inner induction =>
      rw [settled]
      split
      · rename_i nullable
        rw [induction, expr, nullish_expr, if_pos nullable]
      · rw [expr, expr, induction]
  | refined inner message induction => rw [settled, expr, expr, induction]

theorem once_settled (construction : Construction) : construction.settled.Once := by
  induction construction using byParts with
  | scalar type => exact Once.scalar type
  | custom type => exact Once.custom type
  | enumeration values => exact Once.enumeration values
  | array element induction => exact Once.array induction
  | object members induction =>
      rw [settled, settledMembers_eq_map]
      exact Once.object (List.forall_mem_map.mpr induction)
  | nullish inner induction =>
      rw [settled]
      split
      · exact induction
      · rename_i plain
        refine Once.nullish ?_ induction
        rw [isNullish_settled]
        exact Bool.eq_false_iff.mpr plain
  | refined inner message induction => exact Once.refined message induction

end Construction

/-! ## Expressions that are put together by these steps -/

namespace Expr

def Built (expr : Expr) : Prop := ∃ construction : Construction, construction.expr = expr

theorem built_scalar (type : ScalarType) : type.expr.Built := ⟨.scalar type, rfl⟩

theorem built_any : any.Built := built_scalar .json

theorem Built.closed {expr : Expr} (built : expr.Built) : expr.Closed := by
  obtain ⟨construction, rfl⟩ := built
  exact construction.closed_expr

theorem Built.array {element : Expr} (built : element.Built) : (Expr.array element).Built := by
  obtain ⟨construction, rfl⟩ := built
  exact ⟨.array construction, rfl⟩

theorem Built.nullish {inner : Expr} (built : inner.Built) : inner.nullish.Built := by
  obtain ⟨construction, rfl⟩ := built
  exact ⟨.nullish construction, rfl⟩

theorem exists_members_of_built {entries : List (String × Expr)}
    (all : ∀ entry ∈ entries, entry.2.Built) :
    ∃ members, Construction.expr.memberExprs members = entries := by
  induction entries with
  | nil => exact ⟨[], rfl⟩
  | cons entry rest induction =>
      rw [List.forall_mem_cons] at all
      obtain ⟨construction, same⟩ := all.1
      obtain ⟨members, alike⟩ := induction all.2
      refine ⟨(entry.1, construction) :: members, ?_⟩
      rw [Construction.expr.memberExprs, same, alike]

theorem built_object {entries : List (String × Expr)} (all : ∀ entry ∈ entries, entry.2.Built) :
    (Expr.object entries).Built := by
  obtain ⟨members, rfl⟩ := exists_members_of_built all
  exact ⟨.object members, rfl⟩

end Expr

end ScopedSchema
