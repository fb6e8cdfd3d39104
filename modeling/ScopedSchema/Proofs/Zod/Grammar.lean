import ScopedSchema.Proofs.Zod.Expr
import ScopedSchema.Proofs.Zod.ObjectKey

/-!
# The grammar of custom types

A custom type is printed as a chain of calls on one of the basic types, around numerals and regular
expressions that are literals of the language, and lists and objects are put together from such
texts. The text between its outermost parentheses decides what a single call is, so a call around
digits or slashes is in the grammar only if these are literals.
-/

namespace ScopedSchema

namespace CustomType

/-! ## Literals -/

def IsDigits (text : String) : Prop :=
  text ≠ "" ∧ ∀ character ∈ text.toList, character.isDigit = true

/-- A numeral of several digits that began with a zero would be an octal one, which modules do not
have. -/
structure IsNumeral (text : String) : Prop where
  digits : IsDigits text
  leading : text.toList.head? = some '0' → text = "0"

def isLineTerminator (character : Char) : Bool :=
  ['\n', '\r', '\u2028', '\u2029'].contains character

/-- Whether a regular expression can have these characters between its slashes, the flag telling
whether they begin inside a class. All stands on one line, every backslash is followed by the
character that it escapes, every class is closed, and a slash stands in a class only. -/
def isRegexBody : Bool → List Char → Bool
  | inClass, [] => !inClass
  | _, ['\\'] => false
  | inClass, '\\' :: character :: rest =>
    !isLineTerminator character && isRegexBody inClass rest
  | true, character :: rest =>
    !isLineTerminator character && isRegexBody (character != ']') rest
  | false, character :: rest =>
    !isLineTerminator character && character != '/' && isRegexBody (character == '[') rest

def IsSlashed (text : String) : Prop := ∃ body, text.toList = '/' :: (body ++ ['/'])

/-- Two slashes with nothing between them, or with a star first, begin a comment instead. -/
def IsRegexLiteral (text : String) : Prop :=
  ∃ body, text.toList = '/' :: (body ++ ['/']) ∧ body ≠ [] ∧ body.head? ≠ some '*' ∧
    isRegexBody false body = true

/-! ## Expressions -/

inductive Grammatical : String → Prop
  | any : Grammatical "z.any()"
  | boolean : Grammatical "z.boolean()"
  | string : Grammatical "z.string()"
  | email : Grammatical "z.string().email()"
  | uuid : Grammatical "z.string().uuid()"
  | url : Grammatical "z.string().url()"
  | shortest {low : String} : IsNumeral low → Grammatical ("z.string().min(" ++ low ++ ")")
  | length {low high : String} : IsNumeral low → IsNumeral high →
      Grammatical ("z.string().min(" ++ low ++ ").max(" ++ high ++ ")")
  | regex {pattern : String} : IsRegexLiteral pattern →
      Grammatical ("z.string().regex(" ++ pattern ++ ")")
  | number : Grammatical "z.number()"
  | bound {method limit : String} : method = "min" ∨ method = "max" → IsNumeral limit →
      Grammatical ("z.number()." ++ method ++ "(" ++ limit ++ ")")
  | array {element : String} : Grammatical element → Grammatical ("z.array(" ++ element ++ ")")
  | emptyObject : Grammatical "z.object(\x7b\x7d)"
  | object {members : List (String × String)} : members ≠ [] →
      (∀ member ∈ members, ∃ key, ObjectKey.Denotes member.1 key) →
      (∀ member ∈ members, Grammatical member.2) →
      Grammatical ("z.object(\x7b " ++
        ", ".intercalate (members.map fun member => member.1 ++ ": " ++ member.2) ++ " \x7d)")
  | nullish {inner : String} : Grammatical inner → Grammatical (inner ++ ".nullish()")

/-! ## Endings -/

theorem IsDigits.exists_last {text : String} (digits : IsDigits text) :
    ∃ front last, text.toList = front ++ [last] ∧ last.isDigit = true := by
  have filled : text.toList ≠ [] := by
    intro empty
    exact digits.1 (String.toList_eq_nil_iff.mp empty)
  refine ⟨text.toList.dropLast, text.toList.getLast filled, ?_, ?_⟩
  · exact (List.dropLast_concat_getLast filled).symm
  · exact digits.2 _ (List.getLast_mem filled)

theorem IsDigits.not_mem {text : String} (digits : IsDigits text) {character : Char}
    (noDigit : character.isDigit = false) : character ∉ text.toList := by
  intro inside
  rw [digits.2 character inside] at noDigit
  cases noDigit

theorem IsRegexLiteral.isSlashed {text : String} (literal : IsRegexLiteral text) :
    IsSlashed text := by
  obtain ⟨body, split, _⟩ := literal
  exact ⟨body, split⟩

theorem IsSlashed.exists_last {text : String} (slashed : IsSlashed text) :
    ∃ front, text.toList = front ++ ['/'] := by
  obtain ⟨body, split⟩ := slashed
  exact ⟨'/' :: body, split⟩

theorem isNullish_call_of_isDigits (call : String) {text : String} (digits : IsDigits text) :
    (⟨call ++ text ++ ")"⟩ : Expr).isNullish = false := by
  obtain ⟨front, last, split, digit⟩ := digits.exists_last
  have argument : last ≠ '(' := by
    rintro rfl
    cases digit
  exact Expr.isNullish_eq_false_of_closing argument (call.toList ++ front) (by simp [split])

theorem isNullish_call_of_isSlashed (call : String) {text : String} (slashed : IsSlashed text) :
    (⟨call ++ text ++ ")"⟩ : Expr).isNullish = false := by
  obtain ⟨front, split⟩ := slashed.exists_last
  have argument : '/' ≠ '(' := by decide
  exact Expr.isNullish_eq_false_of_closing argument (call.toList ++ front) (by simp [split])

namespace Grammatical

theorem closed {text : String} (grammatical : Grammatical text) : (⟨text⟩ : Expr).Closed := by
  cases grammatical with
  | any => exact Expr.closed_append "z.any("
  | boolean => exact Expr.closed_append "z.boolean("
  | string => exact Expr.closed_append "z.string("
  | email => exact Expr.closed_append "z.string().email("
  | uuid => exact Expr.closed_append "z.string().uuid("
  | url => exact Expr.closed_append "z.string().url("
  | number => exact Expr.closed_append "z.number("
  | emptyObject => exact Expr.closed_append "z.object(\x7b\x7d"
  | shortest _ => exact Expr.closed_append _
  | length _ _ => exact Expr.closed_append _
  | regex _ => exact Expr.closed_append _
  | bound _ _ => exact Expr.closed_append _
  | array _ => exact Expr.closed_append _
  | @object members _ _ _ =>
      exact ⟨("z.object(\x7b " ++
        ", ".intercalate (members.map fun member => member.1 ++ ": " ++ member.2) ++
          " \x7d").toList, by simp⟩
  | @nullish inner _ => exact ⟨(inner ++ ".nullish(").toList, by simp⟩

/-- Nothing but the last rule puts the suffix at the end of a text. -/
theorem exists_inner_or_not_nullish {text : String} (grammatical : Grammatical text) :
    (∃ inner, Grammatical inner ∧ text = inner ++ ".nullish()") ∨
      (⟨text⟩ : Expr).isNullish = false := by
  cases grammatical with
  | nullish inner => exact Or.inl ⟨_, inner, rfl⟩
  | any => exact Or.inr (by decide)
  | boolean => exact Or.inr (by decide)
  | string => exact Or.inr (by decide)
  | email => exact Or.inr (by decide)
  | uuid => exact Or.inr (by decide)
  | url => exact Or.inr (by decide)
  | number => exact Or.inr (by decide)
  | emptyObject => exact Or.inr (by decide)
  | shortest low => exact Or.inr (isNullish_call_of_isDigits "z.string().min(" low.digits)
  | @length low _ _ high =>
      exact Or.inr (isNullish_call_of_isDigits ("z.string().min(" ++ low ++ ").max(") high.digits)
  | regex pattern =>
      exact Or.inr (isNullish_call_of_isSlashed "z.string().regex(" pattern.isSlashed)
  | @bound method _ _ limit =>
      exact Or.inr (isNullish_call_of_isDigits ("z.number()." ++ method ++ "(") limit.digits)
  | array inside => exact Or.inr (Expr.isNullish_array inside.closed)
  | @object members _ _ _ =>
      have ends : " \x7d)".toList <:+ ("z.object(\x7b " ++ ", ".intercalate
          (members.map fun member => member.1 ++ ": " ++ member.2) ++ " \x7d)").toList := by
        rw [String.toList_append]
        exact List.suffix_append _ _
      exact Or.inr (Expr.isNullish_eq_false_of_suffix ends (by decide) (by decide))

theorem false_of_not_nullish {text inner : String} (plain : (⟨text⟩ : Expr).isNullish = false)
    (same : text = inner ++ ".nullish()") : False := by
  rw [same] at plain
  have nullable : (⟨inner ++ ".nullish()"⟩ : Expr).isNullish = true := by
    rw [Expr.isNullish_iff]
    exact ⟨inner.toList, by simp [Expr.nullishSuffix]⟩
  rw [plain] at nullable
  cases nullable

theorem of_nullish {inner : String} (grammatical : Grammatical (inner ++ ".nullish()")) :
    Grammatical inner := by
  rcases grammatical.exists_inner_or_not_nullish with ⟨other, inside, same⟩ | plain
  · have equal : inner = other := by simpa [← String.toList_inj] using same
    rw [equal]
    exact inside
  · exact (false_of_not_nullish plain rfl).elim

/-! ## Calls around literals and elements -/

theorem isNumeral_of_bound {method limit : String} (name : method = "min" ∨ method = "max")
    (digits : IsDigits limit)
    (grammatical : Grammatical ("z.number()." ++ method ++ "(" ++ limit ++ ")")) :
    IsNumeral limit := by
  have plain := isNullish_call_of_isDigits ("z.number()." ++ method ++ "(") digits
  generalize same : "z.number()." ++ method ++ "(" ++ limit ++ ")" = text at grammatical plain
  cases grammatical with
  | @bound other limit' name' numeral =>
      have equal : limit = limit' := by
        rcases name with rfl | rfl <;> rcases name' with rfl | rfl <;>
          simp [← String.toList_inj] at same
        · exact String.toList_inj.mp same
        · exact String.toList_inj.mp same
      rw [equal]
      exact numeral
  | nullish _ => exact (false_of_not_nullish plain rfl).elim
  | _ =>
      -- the texts differ in their first characters
      have begun := congrArg (fun text : String => text.toList.take 12) same
      simp at begun

theorem of_array {element : String} (grammatical : Grammatical ("z.array(" ++ element ++ ")"))
    (closed : (⟨element⟩ : Expr).Closed) : Grammatical element := by
  have plain : (⟨"z.array(" ++ element ++ ")"⟩ : Expr).isNullish = false :=
    Expr.isNullish_array closed
  generalize same : "z.array(" ++ element ++ ")" = text at grammatical plain
  cases grammatical with
  | @array other inside =>
      have equal : element = other := by simpa [← String.toList_inj] using same
      rw [equal]
      exact inside
  | nullish _ => exact (false_of_not_nullish plain rfl).elim
  | _ =>
      -- the texts differ in their first characters
      have begun := congrArg (fun text : String => text.toList.take 8) same
      simp at begun

theorem isRegexLiteral_of_regex {pattern : String} (slashed : IsSlashed pattern)
    (grammatical : Grammatical ("z.string().regex(" ++ pattern ++ ")")) :
    IsRegexLiteral pattern := by
  have plain := isNullish_call_of_isSlashed "z.string().regex(" slashed
  generalize same : "z.string().regex(" ++ pattern ++ ")" = text at grammatical plain
  cases grammatical with
  | @regex pattern' literal =>
      have equal : pattern = pattern' := by simpa [← String.toList_inj] using same
      rw [equal]
      exact literal
  | nullish _ => exact (false_of_not_nullish plain rfl).elim
  | _ =>
      -- the texts differ in their first characters
      have begun := congrArg (fun text : String => text.toList.take 12) same
      simp at begun

theorem isNumeral_of_length {low high : String} (lowDigits : IsDigits low)
    (highDigits : IsDigits high)
    (grammatical : Grammatical ("z.string().min(" ++ low ++ ").max(" ++ high ++ ")")) :
    IsNumeral low ∧ IsNumeral high := by
  have plain := isNullish_call_of_isDigits ("z.string().min(" ++ low ++ ").max(") highDigits
  generalize same : "z.string().min(" ++ low ++ ").max(" ++ high ++ ")" = text at grammatical plain
  cases grammatical with
  | @length low' high' lowNumeral highNumeral =>
      have split : low.toList ++ ')' :: (".max(".toList ++ high.toList ++ [')']) =
          low'.toList ++ ')' :: (".max(".toList ++ high'.toList ++ [')']) := by
        simpa [← String.toList_inj] using same
      have first : low.toList = low'.toList := by
        have digits := congrArg (List.takeWhile Char.isDigit) split
        rw [List.takeWhile_append_of_pos lowDigits.2,
          List.takeWhile_append_of_pos lowNumeral.digits.2] at digits
        simpa using digits
      have equal : low = low' ∧ high = high' := by
        simpa [← String.toList_inj, first] using split
      rw [equal.1, equal.2]
      exact ⟨lowNumeral, highNumeral⟩
  | @shortest low' numeral =>
      have inside : ')' ∈ low'.toList := by
        have equal : low'.toList ++ [')'] =
            (low.toList ++ ").max(".toList ++ high.toList) ++ [')'] := by
          simpa [← String.toList_inj] using same.symm
        rw [List.append_cancel_right equal]
        simp
      exact absurd inside (numeral.digits.not_mem rfl)
  | nullish _ => exact (false_of_not_nullish plain rfl).elim
  | _ =>
      -- the texts differ in their first characters
      have begun := congrArg (fun text : String => text.toList.take 12) same
      simp at begun

end Grammatical

end CustomType

end ScopedSchema
