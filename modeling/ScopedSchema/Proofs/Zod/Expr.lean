import Mathlib.Data.List.Infix
import ScopedSchema.Zod.Leaf

/-!
# Which expressions are nullable

Nullability is read off the end of the text. Expressions of leaf types and of objects end otherwise,
whatever names and values they carry, so nothing but `nullish` makes them nullable.
-/

namespace ScopedSchema

namespace Expr

theorem isNullish_iff (expr : Expr) :
    expr.isNullish = true ↔ nullishSuffix.toList <:+ expr.text.toList := by
  rw [isNullish, List.isSuffixOf_iff_suffix]

@[simp] theorem isNullish_nullish (expr : Expr) : expr.nullish.isNullish = true := by
  unfold nullish
  split
  · assumption
  · rw [isNullish_iff, String.toList_append]
    exact List.suffix_append _ _

/-- The text ends in a closing parenthesis. -/
def Closed (expr : Expr) : Prop := ∃ front, expr.text.toList = front ++ [')']

theorem closed_append (front : String) : Closed ⟨front ++ ")"⟩ := ⟨front.toList, by simp⟩

theorem closed_of_isNullish {expr : Expr} (nullable : expr.isNullish = true) : expr.Closed := by
  obtain ⟨front, same⟩ := (isNullish_iff expr).mp nullable
  exact ⟨front ++ ".nullish(".toList, by simp [← same, nullishSuffix]⟩

/-- Of a text that is known to end in some way, the last characters decide. -/
theorem isNullish_eq_false_of_suffix {expr : Expr} {ending : List Char}
    (ends : ending <:+ expr.text.toList) (short : ending.length ≤ nullishSuffix.toList.length)
    (different : ¬ ending <:+ nullishSuffix.toList) : expr.isNullish = false := by
  apply Bool.eq_false_iff.mpr
  intro nullable
  exact different (List.suffix_of_suffix_length_le ends ((isNullish_iff expr).mp nullable) short)

/-- Of a call with an argument, the last character of the argument decides. -/
theorem isNullish_eq_false_of_closing {expr : Expr} {last : Char} (argument : last ≠ '(')
    (front : List Char) (ends : expr.text.toList = front ++ [last, ')']) :
    expr.isNullish = false := by
  have closing : [last, ')'] <:+ expr.text.toList := ⟨front, ends.symm⟩
  apply isNullish_eq_false_of_suffix closing (by simp [nullishSuffix])
  intro within
  have reversed := List.reverse_prefix.mpr within
  exact argument (by simpa [nullishSuffix] using reversed)

@[simp] theorem isNullish_any : any.isNullish = false := by
  decide

/-- Behind the closing parenthesis of its element, the one of an array is no empty call. -/
theorem isNullish_array {element : Expr} (closed : element.Closed) :
    (array element).isNullish = false := by
  obtain ⟨front, same⟩ := closed
  have argument : ')' ≠ '(' := by decide
  exact isNullish_eq_false_of_closing argument ("z.array(".toList ++ front) (by simp [array, same])

theorem closed_array (element : Expr) : (array element).Closed :=
  closed_append ("z.array(" ++ element.text)

@[simp] theorem isNullish_object (entries : List (String × Expr)) :
    (object entries).isNullish = false := by
  unfold object
  split
  · decide
  · have ends : " \x7d)".toList <:+
        ("z.object(\x7b " ++ ", ".intercalate (entries.map member) ++ " \x7d)").toList := by
      rw [String.toList_append]
      exact List.suffix_append _ _
    exact isNullish_eq_false_of_suffix ends (by decide) (by decide)

theorem closed_object (entries : List (String × Expr)) : (object entries).Closed := by
  unfold object
  split
  · exact closed_append "z.object(\x7b\x7d"
  · exact ⟨("z.object(\x7b " ++ ", ".intercalate (entries.map member) ++ " \x7d").toList, by simp⟩

@[simp] theorem isNullish_enumeration (values : List String) :
    (enumeration values).isNullish = false := by
  have ends : "])".toList <:+ (enumeration values).text.toList := by
    simp only [enumeration, Json.listText, String.toList_append, List.append_assoc]
    exact ⟨"z.enum(".toList ++ ("[".toList ++ (",".intercalate (values.map Quoted.encode)).toList),
      by simp only [List.append_assoc]; rfl⟩
  exact isNullish_eq_false_of_suffix ends (by decide) (by decide)

theorem closed_enumeration (values : List String) : (enumeration values).Closed :=
  closed_append ("z.enum(" ++ Json.listText (values.map Quoted.encode))

theorem toList_withMessage (expr : Expr) (message : String) :
    ∃ front, (expr.withMessage message).text.toList = front ++ " \x7d)".toList :=
  ⟨(expr.text ++ ".refine((val) => true, \x7b message: " ++ Quoted.encode message).toList,
    by simp [withMessage]⟩

@[simp] theorem isNullish_withMessage (expr : Expr) (message : String) :
    (expr.withMessage message).isNullish = false := by
  obtain ⟨front, same⟩ := toList_withMessage expr message
  exact isNullish_eq_false_of_suffix ⟨front, same.symm⟩ (by decide) (by decide)

theorem closed_withMessage (expr : Expr) (message : String) :
    (expr.withMessage message).Closed := by
  obtain ⟨front, same⟩ := toList_withMessage expr message
  exact ⟨front ++ " \x7d".toList, by simp [same]⟩

end Expr

@[simp] theorem ScalarType.isNullish_expr (scalar : ScalarType) :
    scalar.expr.isNullish = false := by
  cases scalar <;> decide

theorem ScalarType.closed_expr (scalar : ScalarType) : scalar.expr.Closed := by
  cases scalar with
  | string => exact Expr.closed_append "z.string("
  | int => exact Expr.closed_append "z.number().int("
  | float => exact Expr.closed_append "z.number("
  | boolean => exact Expr.closed_append "z.boolean("
  | dateTime => exact Expr.closed_append "z.date("
  | json => exact Expr.closed_append "z.any("
  | bigInt => exact Expr.closed_append "z.bigint("
  | decimal => exact Expr.closed_append "z.string("
  | bytes => exact Expr.closed_append "z.instanceof(Buffer"

@[simp] theorem Registry.isNullish_leafExpr (registry : Registry) (tag : String) :
    (registry.leafExpr tag).isNullish = false := by
  unfold leafExpr
  cases registry.enum? tag with
  | some members => exact Expr.isNullish_enumeration members
  | none =>
    cases ScalarType.ofTag? tag with
    | some scalar => exact scalar.isNullish_expr
    | none => exact Expr.isNullish_any

end ScopedSchema
