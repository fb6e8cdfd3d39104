import ScopedSchema.Proofs.Document.Json
import ScopedSchema.Zod.Expr

/-!
# String literals of expressions

A literal ends at the first quotation mark that no backslash stands before, so a text has the same
literals for every reader that goes through it from left to right. Enumerations have one literal for
each of their values and messages have one, whatever characters are in them: each is read back as
the text that it was written for, and nothing of that text stands outside of its literal.
-/

namespace ScopedSchema

namespace Quoted

mutual

/-- The string literals of a text in order, as they stand there. A text that ends inside of a literal
is not read. -/
def literals? : List Char → Option (List String)
  | [] => some []
  | '"' :: rest => literalsInside? ['"'] rest
  | _ :: rest => literals? rest

/-- The literals of a text that goes on behind the opening part of one. A backslash takes the
character behind it along. -/
def literalsInside? (opening : List Char) : List Char → Option (List String)
  | [] => none
  | '"' :: rest => (literals? rest).map (String.ofList (opening ++ ['"']) :: ·)
  | '\\' :: character :: rest => literalsInside? (opening ++ ['\\', character]) rest
  | character :: rest => literalsInside? (opening ++ [character]) rest

end

/-- Inside of a literal the character stands for itself. -/
def IsPlain (character : Char) : Prop := character ≠ '"' ∧ character ≠ '\\'

instance (character : Char) : Decidable (IsPlain character) :=
  inferInstanceAs (Decidable (_ ∧ _))

theorem literals?_append {outside : List Char} (free : '"' ∉ outside) (rest : List Char) :
    literals? (outside ++ rest) = literals? rest := by
  induction outside with
  | nil => rfl
  | cons character outside induction =>
      rw [List.mem_cons, not_or] at free
      rw [List.cons_append, literals?.eq_3 _ _ (Ne.symm free.1), induction free.2]

theorem literalsInside?_backslash (opening : List Char) (letter : Char) (rest : List Char) :
    literalsInside? opening ('\\' :: letter :: rest) =
      literalsInside? (opening ++ ['\\', letter]) rest := by
  rw [literalsInside?]

theorem literalsInside?_append {plain : List Char} (all : ∀ character ∈ plain, IsPlain character)
    (opening rest : List Char) :
    literalsInside? opening (plain ++ rest) = literalsInside? (opening ++ plain) rest := by
  induction plain generalizing opening with
  | nil => simp
  | cons character plain induction =>
      rw [List.forall_mem_cons] at all
      have taken : literalsInside? opening (character :: (plain ++ rest)) =
          literalsInside? (opening ++ [character]) (plain ++ rest) := by
        rw [literalsInside?]
        · exact all.1.1
        · exact fun _ _ same _ => all.1.2 same
      rw [List.cons_append, taken, induction all.2, List.append_assoc, List.singleton_append]

theorem isPlain_hexDigit : ∀ value < 16, IsPlain (hexDigit value) := by
  decide

/-- What a character is escaped as does not close the literal. -/
theorem literalsInside?_escape (character : Char) (opening rest : List Char) :
    literalsInside? opening (escape character ++ rest) =
      literalsInside? (opening ++ escape character) rest := by
  unfold escape
  -- seven characters have an escape of one letter
  iterate 7
    split
    · exact literalsInside?_backslash opening _ rest
  rename_i noQuote noBackslash _ _ _ _ _
  split
  · rename_i control
    have digits : ∀ digit ∈ ['0', '0', hexDigit (character.toNat / 16),
        hexDigit (character.toNat % 16)], IsPlain digit := by
      have high := isPlain_hexDigit (character.toNat / 16) (by omega)
      have low := isPlain_hexDigit (character.toNat % 16) (by omega)
      have zero : IsPlain '0' := by decide
      simp [zero, high, low]
    rw [List.cons_append, List.cons_append, literalsInside?_backslash,
      literalsInside?_append digits, List.append_assoc]
    rfl
  · apply literalsInside?_append
    simpa [IsPlain] using ⟨noQuote, noBackslash⟩

theorem literalsInside?_flatMap_escape (characters opening rest : List Char) :
    literalsInside? opening (characters.flatMap escape ++ rest) =
      literalsInside? (opening ++ characters.flatMap escape) rest := by
  induction characters generalizing opening with
  | nil => simp
  | cons character characters induction =>
      rw [List.flatMap_cons, List.append_assoc, literalsInside?_escape, induction,
        List.append_assoc]

theorem literals?_encode (text : String) (rest : List Char) :
    literals? ((encode text).toList ++ rest) = (literals? rest).map (encode text :: ·) := by
  rw [encode, String.toList_ofList, List.cons_append, List.cons_append, List.append_assoc, literals?,
    literalsInside?_flatMap_escape, List.singleton_append, List.singleton_append, literalsInside?]
  rfl

/-- Commas between the literals do not show, and neither does what is behind the last one. -/
theorem literals?_intercalate (texts : List String) {rest : List Char} (free : '"' ∉ rest) :
    literals? ((",".intercalate (texts.map encode)).toList ++ rest) = some (texts.map encode) := by
  have behind : literals? rest = some [] := by
    simpa [literals?] using literals?_append free []
  cases texts with
  | nil => simpa using behind
  | cons first others =>
      rw [List.map_cons, Json.toList_intercalate_cons, List.append_assoc, literals?_encode]
      have later : literals? ((others.map encode).flatMap (fun text => ',' :: text.toList) ++ rest) =
          some (others.map encode) := by
        induction others with
        | nil => exact behind
        | cons second others induction =>
            have comma : '"' ∉ [','] := by decide
            rw [List.map_cons, List.flatMap_cons, List.append_assoc, List.cons_append,
              ← List.singleton_append, literals?_append comma, literals?_encode, induction]
            rfl
      rw [later]
      rfl

end Quoted

namespace Expr

open Quoted

/-- What a message adds to an expression, where the literal is that of the message. -/
def refinement (literal : String) : String :=
  ".refine((val) => true, \x7b message: " ++ literal ++ " \x7d)"

theorem text_withMessage (expr : Expr) (message : String) :
    (expr.withMessage message).text = expr.text ++ refinement (encode message) := by
  unfold withMessage refinement
  simp only [String.append_assoc]

theorem literals?_refinement (message : String) :
    literals? (refinement (encode message)).toList = some [encode message] := by
  have before : '"' ∉ ".refine((val) => true, \x7b message: ".toList := by decide
  have after : literals? " \x7d)".toList = some [] := by rfl
  unfold refinement
  rw [String.toList_append, String.toList_append, List.append_assoc, literals?_append before,
    literals?_encode, after]
  rfl

theorem literals?_enumeration (values : List String) :
    literals? (enumeration values).text.toList = some (values.map encode) := by
  have before : '"' ∉ "z.enum([".toList := by decide
  have after : '"' ∉ "])".toList := by decide
  have text : (enumeration values).text.toList =
      "z.enum([".toList ++ ((",".intercalate (values.map encode)).toList ++ "])".toList) := by
    simp [enumeration, Json.listText]
  rw [text, literals?_append before, literals?_intercalate values after]

/-- A value that imitates the end of the array stays inside of its literal. -/
example : literals? (enumeration ["\"])", ","]).text.toList = some ["\"\\\"])\"", "\",\""] := by
  decide

/-- An enumeration is written around one array of JSON that reads as exactly its values, and its
string literals are those of its values. A message adds one literal, which reads as it. -/
theorem quoted_texts_read_back :
    (∀ text : String, Json.read? (encode text) = some (.string text)) ∧
    (∀ values : List String, ∃ array : String,
      (enumeration values).text = "z.enum(" ++ array ++ ")" ∧
        Json.read? array = some (.list (values.map .string)) ∧
        literals? (enumeration values).text.toList = some (values.map encode)) ∧
    ∀ (expr : Expr) (message : String), ∃ literal : String,
      (expr.withMessage message).text = expr.text ++ refinement literal ∧
        literals? (refinement literal).toList = some [literal] ∧
        Json.read? literal = some (.string message) := by
  have reads (text : String) : Json.read? (encode text) = some (.string text) :=
    Json.read?_of_reads (Json.reads_encode text) (Nat.zero_le _)
  refine ⟨reads, ?_, ?_⟩
  · intro values
    have each : List.Forall₂ (Json.Reads 0) (values.map encode) (values.map .string) := by
      rw [List.forall₂_map_left_iff, List.forall₂_map_right_iff, List.forall₂_same]
      exact fun value _ => Json.reads_encode value
    have array : Json.read? (Json.listText (values.map encode)) =
        some (.list (values.map .string)) :=
      Json.read?_of_reads (Json.reads_listText each) (by decide)
    exact ⟨_, rfl, array, literals?_enumeration values⟩
  · intro expr message
    exact ⟨encode message, text_withMessage expr message, literals?_refinement message,
      reads message⟩

end Expr

end ScopedSchema
