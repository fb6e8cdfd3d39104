import Mathlib.Data.List.Infix
import ScopedSchema.Zod.Expr

/-!
# Names of object members

A reader of object members takes a bare identifier, or quoted text up to the first quote that is not
escaped. Whatever is written for a key is read back as that key, and the text behind it is left, so
no key ends its quotes early and no two keys are written alike. A line break is written as it is,
though, and quoted text must stand on one line: the names of exactly the keys without line breaks
are property names.
-/

namespace ScopedSchema

namespace ObjectKey

/-- The character that stands behind a backslash for itself or for another one. Longer escapes and
continued lines, which no key is written with, are not read. -/
def meant? : Char → Option Char
  | 'b' => some '\x08'
  | 'f' => some '\x0c'
  | 'n' => some '\n'
  | 'r' => some '\r'
  | 't' => some '\t'
  | 'v' => some '\x0b'
  | character =>
    if character.isDigit || ['x', 'u', '\n', '\r', '\u2028', '\u2029'].contains character then none
    else some character

/-- Reads quoted text, behind its opening quote, up to the first quote that is not escaped: the
characters that it stands for, and what is left of the text. -/
def readQuoted? : List Char → Option (List Char × List Char)
  | [] => none
  | '\'' :: rest => some ([], rest)
  | ['\\'] => none
  | '\\' :: character :: rest =>
    (meant? character).bind fun meant =>
      (readQuoted? rest).map fun read => (meant :: read.1, read.2)
  | character :: rest => (readQuoted? rest).map fun read => (character :: read.1, read.2)

def isIdentifierPart (character : Char) : Bool :=
  character.isAlphanum || character = '_' || character = '$'

/-- Reads the name of an object member. An identifier is read as far as it goes. -/
def read? : List Char → Option (List Char × List Char)
  | [] => none
  | '\'' :: rest => readQuoted? rest
  | first :: rest =>
    if isIdentifierPart first && !first.isDigit then
      some (first :: rest.takeWhile isIdentifierPart, rest.dropWhile isIdentifierPart)
    else none

def OneLine (text : String) : Prop := '\n' ∉ text.toList ∧ '\r' ∉ text.toList

/-- The text is one property name, and the name of this key. -/
structure Denotes (text key : String) : Prop where
  read : read? text.toList = some (key.toList, [])
  oneLine : OneLine text

/-! ## Quoted names -/

theorem readQuoted?_plain {character : Char} (noQuote : character ≠ '\'')
    (noBackslash : character ≠ '\\') (rest : List Char) :
    readQuoted? (character :: rest) =
      (readQuoted? rest).map fun read => (character :: read.1, read.2) := by
  rw [readQuoted?]
  · exact noQuote
  · exact fun same _ => noBackslash same
  · exact fun _ _ same _ => noBackslash same

theorem readQuoted?_escape (character : Char) (rest : List Char) :
    readQuoted? (escape character ++ rest) =
      (readQuoted? rest).map fun read => (character :: read.1, read.2) := by
  unfold escape
  split
  · rename_i special
    have stands : meant? character = some character := by
      rcases special with rfl | rfl <;> rfl
    rw [List.cons_append, List.cons_append, List.nil_append, readQuoted?, stands, Option.bind_some]
  · rename_i plain
    rw [not_or] at plain
    exact readQuoted?_plain plain.2 plain.1 rest

/-- The quote behind the escaped characters is the first one that is not escaped. -/
theorem readQuoted?_flatMap_escape (characters rest : List Char) :
    readQuoted? (characters.flatMap escape ++ '\'' :: rest) = some (characters, rest) := by
  induction characters with
  | nil => rfl
  | cons character characters induction =>
      rw [List.flatMap_cons, List.append_assoc, readQuoted?_escape, induction]
      rfl

/-! ## Bare names -/

theorem isDigit_of_isAlpha {character : Char} (letter : character.isAlpha = true) :
    character.isDigit = false := by
  have ranges : (character.isUpper || character.isLower) = true := letter
  rcases Bool.or_eq_true_iff.mp ranges with upper | lower
  · have range : 'A'.val ≤ character.val ∧ character.val ≤ 'Z'.val := of_decide_eq_true upper
    simp only [Char.isDigit]
    grind
  · have range : (decide ('a'.val ≤ character.val) && decide (character.val ≤ 'z'.val)) = true :=
      lower
    simp only [Char.isDigit]
    grind

theorem isIdentifierPart_iff {character : Char} :
    isIdentifierPart character = true ↔
      (character.isAlpha = true ∨ character = '_' ∨ character = '$') ∨
        character.isDigit = true := by
  simp only [isIdentifierPart, Char.isAlphanum, Bool.or_eq_true, decide_eq_true_eq]
  tauto

theorem isBareIdentifier_iff {name : String} {first : Char} {rest : List Char}
    (split : name.toList = first :: rest) :
    isBareIdentifier name = true ↔
      isIdentifierPart first = true ∧ first.isDigit = false ∧
        ∀ character ∈ rest, isIdentifierPart character = true := by
  have start : (first.isAlpha = true ∨ first = '_' ∨ first = '$') ↔
      isIdentifierPart first = true ∧ first.isDigit = false := by
    rw [isIdentifierPart_iff]
    constructor
    · intro start
      refine ⟨Or.inl start, ?_⟩
      rcases start with letter | rfl | rfl
      · exact isDigit_of_isAlpha letter
      · rfl
      · rfl
    · intro split
      exact split.1.resolve_right (by simp [split.2])
  simp only [isBareIdentifier, split, Bool.and_eq_true, Bool.or_eq_true, decide_eq_true_eq,
    List.all_eq_true, or_assoc, isIdentifierPart_iff] at start ⊢
  rw [start, and_assoc]

/-- An identifier is read to its end, where something else stands. -/
theorem read?_of_isBareIdentifier {name : String} (bare : isBareIdentifier name = true)
    {rest : List Char} (ends : ∀ character ∈ rest.head?, isIdentifierPart character = false) :
    read? (name.toList ++ rest) = some (name.toList, rest) := by
  cases split : name.toList with
  | nil =>
      rw [isBareIdentifier, split] at bare
      cases bare
  | cons first others =>
      obtain ⟨part, noDigit, parts⟩ := (isBareIdentifier_iff split).mp bare
      have noQuote : first ≠ '\'' := by
        rintro rfl
        cases part
      have stops : rest.takeWhile isIdentifierPart = [] ∧
          rest.dropWhile isIdentifierPart = rest := by
        cases rest with
        | nil => exact ⟨rfl, rfl⟩
        | cons next later => simp [ends next rfl]
      have taken : (others ++ rest).takeWhile isIdentifierPart = others := by
        rw [List.takeWhile_append_of_pos parts, stops.1, List.append_nil]
      have left : (others ++ rest).dropWhile isIdentifierPart = rest := by
        rw [List.dropWhile_append_of_pos parts, stops.2]
      rw [List.cons_append, read?, if_pos (by simp [part, noDigit]), taken, left]
      exact noQuote

/-! ## Written names -/

theorem toList_encode_of_not_bare {key : String} (quoted : ¬ isBareIdentifier key = true) :
    (encode key).toList = '\'' :: (key.toList.flatMap escape ++ ['\'']) := by
  rw [encode, if_neg quoted, String.toList_ofList, List.cons_append]

/-- A key is read back, whatever follows that does not go on with an identifier. -/
theorem read?_encode (key : String) {rest : List Char}
    (ends : ∀ character ∈ rest.head?, isIdentifierPart character = false) :
    read? ((encode key).toList ++ rest) = some (key.toList, rest) := by
  by_cases bare : isBareIdentifier key = true
  · rw [encode, if_pos bare]
    exact read?_of_isBareIdentifier bare ends
  · rw [toList_encode_of_not_bare bare, List.cons_append, List.append_assoc, read?]
    exact readQuoted?_flatMap_escape key.toList rest

theorem read?_toList_encode (key : String) :
    read? (encode key).toList = some (key.toList, []) := by
  have ends : ∀ character ∈ ([] : List Char).head?, isIdentifierPart character = false := by simp
  have read := read?_encode key ends
  rwa [List.append_nil] at read

theorem encode_injective : Function.Injective encode := by
  intro first second same
  have read := read?_toList_encode first
  rw [same, read?_toList_encode second] at read
  exact (String.toList_inj.mp (congrArg Prod.fst (Option.some.inj read))).symm

theorem mem_flatMap_escape_iff {character : Char} (plain : character ≠ '\\')
    {characters : List Char} :
    character ∈ characters.flatMap escape ↔ character ∈ characters := by
  have alone : ∀ other, character ∈ escape other ↔ character = other := by
    intro other
    unfold escape
    split <;> simp [plain]
  simp only [List.mem_flatMap, alone]
  simp

theorem mem_encode_iff {character : Char} (noBackslash : character ≠ '\\')
    (noQuote : character ≠ '\'') {key : String} :
    character ∈ (encode key).toList ↔ character ∈ key.toList := by
  by_cases bare : isBareIdentifier key = true
  · rw [encode, if_pos bare]
  · rw [toList_encode_of_not_bare bare]
    simp [mem_flatMap_escape_iff noBackslash, noQuote]

theorem oneLine_encode_iff {key : String} : OneLine (encode key) ↔ OneLine key := by
  unfold OneLine
  rw [mem_encode_iff (by decide) (by decide), mem_encode_iff (by decide) (by decide)]

theorem denotes_encode_iff {key other : String} :
    Denotes (encode key) other ↔ other = key ∧ OneLine key := by
  constructor
  · intro denotes
    have read := denotes.read
    rw [read?_toList_encode] at read
    have same := congrArg Prod.fst (Option.some.inj read)
    exact ⟨(String.toList_inj.mp same).symm, oneLine_encode_iff.mp denotes.oneLine⟩
  · rintro ⟨rfl, oneLine⟩
    exact ⟨read?_toList_encode other, oneLine_encode_iff.mpr oneLine⟩

/-- What is written for a key is the property name of this key and of no other, if the key has no
line break, and of none otherwise. Another key is written differently. In an object the key is read
back up to the colon that follows it. -/
theorem member_reads_back (key : String) :
    (∀ other, Denotes (encode key) other ↔ other = key ∧ OneLine key) ∧
      (∀ other, encode other = encode key ↔ other = key) ∧
      ∀ (value : Expr) (rest : List Char),
        read? ((Expr.member (key, value)).toList ++ rest) =
          some (key.toList, ": ".toList ++ value.text.toList ++ rest) := by
  refine ⟨fun other => denotes_encode_iff, fun other => encode_injective.eq_iff, ?_⟩
  intro value rest
  have ends : ∀ character ∈ (": ".toList ++ value.text.toList ++ rest).head?,
      isIdentifierPart character = false := by
    simp
    decide
  rw [← read?_encode key ends]
  simp [Expr.member]

/-- A line break stays between the quotes as it is. -/
theorem not_denotes_encode_lineBreak :
    encode "a\nb" = "'a\nb'" ∧ ¬ ∃ other, Denotes (encode "a\nb") other := by
  have written : encode "a\nb" = "'a\nb'" := by decide
  refine ⟨written, ?_⟩
  rintro ⟨other, denotes⟩
  have noBreak := denotes.oneLine.1
  rw [written] at noBreak
  exact noBreak (by decide)

end ObjectKey

end ScopedSchema
