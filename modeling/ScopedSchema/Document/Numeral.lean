/-!
Decimal numerals, and whether a double can hold them. The exact comparison takes a numeral as it
stands. The rounded one keeps as many leading digits as fit 64 bits, rounds them and the power of
ten to doubles, and multiplies.
-/

namespace ScopedSchema

/-- Digits around an optional point, with an optional exponent. -/
structure Numeral where
  sign : Option Char
  whole : List Char
  fraction : Option (List Char)
  exponent : Option (Option Char × List Char)

namespace Numeral

def digitsValue (base : Nat) (digits : List Char) : Nat :=
  digits.foldl (fun value digit =>
    let code := digit.toNat
    value * base +
      (if code < 58 then code - 48 else if code < 97 then code - 55 else code - 87)) 0

def splitSign : List Char → Option Char × List Char
  | '+' :: rest => (some '+', rest)
  | '-' :: rest => (some '-', rest)
  | text => (none, text)

def splitFraction : List Char → Option (List Char) × List Char
  | '.' :: rest => (some (rest.takeWhile Char.isDigit), rest.dropWhile Char.isDigit)
  | text => (none, text)

def splitExponent? : List Char → Option (Option (Option Char × List Char))
  | [] => some none
  | marker :: rest =>
    let (sign, digits) := splitSign rest
    if (marker = 'e' ∨ marker = 'E') ∧ digits ≠ [] ∧ digits.all Char.isDigit then
      some (some (sign, digits))
    else none

/-- At least one digit stands before or behind the point. -/
def read? (text : List Char) : Option Numeral :=
  let (sign, unsigned) := splitSign text
  let whole := unsigned.takeWhile Char.isDigit
  let (fraction, rest) := splitFraction (unsigned.dropWhile Char.isDigit)
  if whole.isEmpty && (fraction.getD []).isEmpty then none
  else (splitExponent? rest).map fun exponent => ⟨sign, whole, fraction, exponent⟩

/-- Neither a plus sign, nor a superfluous leading zero, nor a point without digits on each
side. -/
def isStrict (numeral : Numeral) : Bool :=
  numeral.sign != some '+' && !numeral.whole.isEmpty &&
    (numeral.whole.length == 1 || numeral.whole.head? != some '0') &&
    numeral.fraction != some []

def exponentValue (numeral : Numeral) : Int :=
  match numeral.exponent with
  | none => 0
  | some (some '-', digits) => -(digitsValue 10 digits : Int)
  | some (_, digits) => digitsValue 10 digits

/-- Half a unit in the last place above the largest double: from here on doubles are infinite. -/
def overflow : Nat := Nat.pow 2 1024 - Nat.pow 2 970

/-- Compares without rounding. Exponents far out of range are decided by the number of digits. -/
def isFinite (numeral : Numeral) : Bool :=
  let fraction := numeral.fraction.getD []
  let significant := (numeral.whole ++ fraction).dropWhile fun digit => digit == '0'
  let exponent := numeral.exponentValue - fraction.length
  let magnitude := significant.length + exponent
  if significant.isEmpty || magnitude ≤ 308 then true
  else if 310 ≤ magnitude then false
  else if 0 ≤ exponent then
    decide (digitsValue 10 significant * Nat.pow 10 exponent.toNat < overflow)
  else decide (digitsValue 10 significant < overflow * Nat.pow 10 (-exponent).toNat)

/-- The nearest number of 53 significant bits; a tie goes to the even one. -/
def roundToDouble (number : Nat) : Nat :=
  let unit := Nat.pow 2 (number.log2 + 1 - 53)
  let quotient := number / unit
  let remainder := number % unit
  if unit < 2 * remainder ∨ (unit = 2 * remainder ∧ quotient % 2 = 1) then (quotient + 1) * unit
  else quotient * unit

/-- Reads digits behind a number for as long as it stays below `2 ^ 64`, and returns the digits
left. -/
def accumulate : Nat → List Char → Nat × List Char
  | value, [] => (value, [])
  | value, digit :: rest =>
    let next := value * 10 + (digit.toNat - 48)
    if next < Nat.pow 2 64 then accumulate next rest else (value, digit :: rest)

/-- The leading digits that fit 64 bits, and the power of ten that they are counted in. Digits left
over before the point raise it, and those behind the point are dropped. -/
def leading (numeral : Numeral) : Nat × Int :=
  let fraction := numeral.fraction.getD []
  let (whole, extra) := accumulate 0 numeral.whole
  let (significand, dropped) := accumulate whole fraction
  (significand,
    numeral.exponentValue + extra.length - (fraction.length - dropped.length : Nat))

def isFiniteRounded (numeral : Numeral) : Bool :=
  let (significand, exponent) := numeral.leading
  if significand = 0 ∨ exponent < 0 then true
  else if 308 < exponent then false
  else decide (roundToDouble significand * roundToDouble (Nat.pow 10 exponent.toNat) < overflow)

/-- The number itself, if it is written with digits only and fits 64 bits. -/
def natural? (numeral : Numeral) : Option Nat :=
  let (value, extra) := accumulate 0 numeral.whole
  if numeral.sign.isNone && numeral.fraction.isNone && numeral.exponent.isNone && extra.isEmpty
  then some value
  else none

end Numeral

end ScopedSchema
