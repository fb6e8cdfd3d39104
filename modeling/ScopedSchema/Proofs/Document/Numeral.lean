import Mathlib.Data.List.TakeWhile
import ScopedSchema.Document.Numeral

/-!
# Reading strict numerals

A strict numeral has an optional minus sign, a whole part without superfluous zeros, and perhaps
digits behind a point and behind an exponent mark. Its parts follow one another in the text, and
none can be mistaken for the next: the digits of a part end where a point, an exponent mark or the
whole text ends. So the parts are read back from the text.
-/

namespace ScopedSchema

namespace Numeral

def AreDigits (text : List Char) : Prop := text ≠ [] ∧ ∀ digit ∈ text, digit.isDigit = true

/-- The parts that a strict numeral may have. -/
structure Strict (numeral : Numeral) : Prop where
  sign : ∀ sign ∈ numeral.sign, sign = '-'
  whole : AreDigits numeral.whole
  short : numeral.whole = ['0'] ∨ numeral.whole.head? ≠ some '0'
  fraction : ∀ digits ∈ numeral.fraction, AreDigits digits
  exponentSign : ∀ part ∈ numeral.exponent, ∀ sign ∈ part.1, sign = '+' ∨ sign = '-'
  exponent : ∀ part ∈ numeral.exponent, AreDigits part.2

def fractionText (numeral : Numeral) : List Char := numeral.fraction.elim [] ('.' :: ·)

def exponentText (numeral : Numeral) (mark : Char) : List Char :=
  numeral.exponent.elim [] fun part => mark :: part.1.toList ++ part.2

/-- The text of a numeral whose exponent stands behind `mark`. -/
def text (numeral : Numeral) (mark : Char) : List Char :=
  numeral.sign.toList ++ (numeral.whole ++ (numeral.fractionText ++ numeral.exponentText mark))

/-- No digit comes next. -/
def EndsDigits (rest : List Char) : Prop := ∀ character ∈ rest.head?, character.isDigit = false

theorem AreDigits.takeWhile_append {digits rest : List Char} (all : AreDigits digits)
    (ends : EndsDigits rest) : (digits ++ rest).takeWhile Char.isDigit = digits := by
  have none : rest.takeWhile Char.isDigit = [] := by
    cases rest with
    | nil => rfl
    | cons character rest => exact List.takeWhile_cons_of_neg (by simp [ends character rfl])
  rw [List.takeWhile_append_of_pos all.2, none, List.append_nil]

theorem AreDigits.dropWhile_append {digits rest : List Char} (all : AreDigits digits)
    (ends : EndsDigits rest) : (digits ++ rest).dropWhile Char.isDigit = rest := by
  have all' : rest.dropWhile Char.isDigit = rest := by
    cases rest with
    | nil => rfl
    | cons character rest => exact List.dropWhile_cons_of_neg (by simp [ends character rfl])
  rw [List.dropWhile_append_of_pos all.2, all']

/-- Digits are no sign, so a sign in front of them is found, and none is found without one. -/
theorem splitSign_append {sign : Option Char} {digits : List Char}
    (known : ∀ character ∈ sign, character = '+' ∨ character = '-') (all : AreDigits digits)
    (rest : List Char) : splitSign (sign.toList ++ (digits ++ rest)) = (sign, digits ++ rest) := by
  cases sign with
  | some character => rcases known character rfl with rfl | rfl <;> rfl
  | none =>
      obtain ⟨first, others, rfl⟩ := List.exists_cons_of_ne_nil all.1
      have digit : first.isDigit = true := all.2 first List.mem_cons_self
      have noPlus : first ≠ '+' := by
        rintro rfl
        exact absurd digit (by decide)
      have noMinus : first ≠ '-' := by
        rintro rfl
        exact absurd digit (by decide)
      simp [splitSign, noPlus, noMinus]

theorem splitExponent?_exponentText {numeral : Numeral} (strict : numeral.Strict) {mark : Char}
    (marks : mark = 'e' ∨ mark = 'E') :
    splitExponent? (numeral.exponentText mark) = some numeral.exponent := by
  unfold exponentText
  cases written : numeral.exponent with
  | none => rfl
  | some part =>
      obtain ⟨sign, digits⟩ := part
      have all : AreDigits digits := strict.exponent (sign, digits) written
      have split := splitSign_append (strict.exponentSign (sign, digits) written) all []
      rw [List.append_nil] at split
      simp only [Option.elim_some, List.cons_append, splitExponent?, split]
      rw [if_pos ⟨marks, all.1, List.all_eq_true.mpr all.2⟩]

theorem endsDigits_exponentText (numeral : Numeral) {mark : Char}
    (marks : mark = 'e' ∨ mark = 'E') : EndsDigits (numeral.exponentText mark) := by
  unfold exponentText
  cases numeral.exponent with
  | none => simp [EndsDigits]
  | some part => rcases marks with rfl | rfl <;> simp [EndsDigits]

theorem splitFraction_append {numeral : Numeral} (strict : numeral.Strict) {mark : Char}
    (marks : mark = 'e' ∨ mark = 'E') :
    splitFraction (numeral.fractionText ++ numeral.exponentText mark) =
      (numeral.fraction, numeral.exponentText mark) := by
  have ends := numeral.endsDigits_exponentText marks
  unfold fractionText
  cases written : numeral.fraction with
  | some digits =>
      have all := strict.fraction digits written
      simp only [Option.elim_some, List.cons_append, splitFraction]
      rw [all.takeWhile_append ends, all.dropWhile_append ends]
  | none =>
      unfold exponentText
      cases numeral.exponent with
      | none => rfl
      | some part => rcases marks with rfl | rfl <;> rfl

/-- A strict numeral is read back from its text. -/
theorem read?_text {numeral : Numeral} (strict : numeral.Strict) {mark : Char}
    (marks : mark = 'e' ∨ mark = 'E') : read? (numeral.text mark) = some numeral := by
  have ends : EndsDigits (numeral.fractionText ++ numeral.exponentText mark) := by
    unfold fractionText
    cases numeral.fraction with
    | none => exact numeral.endsDigits_exponentText marks
    | some digits => simp [EndsDigits]
  have signed := splitSign_append (fun sign written => Or.inr (strict.sign sign written))
    strict.whole (numeral.fractionText ++ numeral.exponentText mark)
  have filled : numeral.whole.isEmpty = false := by simpa using strict.whole.1
  rw [text, read?, signed]
  simp only [strict.whole.takeWhile_append ends, strict.whole.dropWhile_append ends,
    splitFraction_append strict marks, splitExponent?_exponentText strict marks, filled]
  rfl

theorem isStrict_of_strict {numeral : Numeral} (strict : numeral.Strict) :
    numeral.isStrict = true := by
  have sign : numeral.sign ≠ some '+' := by
    intro written
    exact absurd (strict.sign '+' written) (by decide)
  have fraction : numeral.fraction ≠ some [] := fun written => (strict.fraction [] written).1 rfl
  have short : numeral.whole.length = 1 ∨ numeral.whole.head? ≠ some '0' := by
    rcases strict.short with zero | other
    · exact Or.inl (by rw [zero]; rfl)
    · exact Or.inr other
  simp [isStrict, sign, strict.whole.1, short, fraction]

end Numeral

end ScopedSchema
