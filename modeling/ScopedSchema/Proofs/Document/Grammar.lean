import ScopedSchema.Proofs.Document.Numeral
import ScopedSchema.Proofs.Document.Record

/-!
# Every JSON text is read as its value

A grammar says which texts are JSON and what they mean, without saying how they are read: literals,
and lists and tables whose parts stand between commas, with blanks around every part. A text of it
that stays within the limits of the reader is read as its value. Within the limits, only a string
literal can be well formed and yet mean nothing, if a code in it is half of a surrogate pair without
the other half.
-/

namespace ScopedSchema

namespace Json

/-! ## String literals -/

/-- The letters of the short escapes, each with the character that it stands for. -/
def shortEscapes : List (Char × Char) :=
  [('"', '"'), ('\\', '\\'), ('/', '/'), ('b', '\x08'), ('f', '\x0c'), ('n', '\n'), ('r', '\r'),
    ('t', '\t')]

def IsHexDigit (digit : Char) : Prop :=
  ('0' ≤ digit ∧ digit ≤ '9') ∨ ('a' ≤ digit ∧ digit ≤ 'f') ∨ ('A' ≤ digit ∧ digit ≤ 'F')

/-- The ways to write a character, or a code, in a string literal. -/
inductive Spells : List Char → Piece → Prop
  | character {character : Char} : character ≠ '"' → character ≠ '\\' → 32 ≤ character.toNat →
      Spells [character] (.character character)
  | short {letter meant : Char} : (letter, meant) ∈ shortEscapes →
      Spells ['\\', letter] (.character meant)
  | code {digits : List Char} : digits.length = 4 → (∀ digit ∈ digits, IsHexDigit digit) →
      Spells ('\\' :: 'u' :: digits) (.code (Numeral.digitsValue 16 digits))

def IsSurrogate (code : Nat) : Prop := 0xD800 ≤ code ∧ code < 0xE000

/-- The characters that pieces stand for. A surrogate stands for one only in a pair. -/
inductive Means : List Piece → List Char → Prop
  | nil : Means [] []
  | character {character : Char} {rest : List Piece} {characters : List Char} :
      Means rest characters → Means (.character character :: rest) (character :: characters)
  | code {code : Nat} {rest : List Piece} {characters : List Char} : ¬ IsSurrogate code →
      Means rest characters → Means (.code code :: rest) (Char.ofNat code :: characters)
  | pair {high low : Nat} {rest : List Piece} {characters : List Char} :
      0xD800 ≤ high → high < 0xDC00 → 0xDC00 ≤ low → low < 0xE000 → Means rest characters →
      Means (.code high :: .code low :: rest)
        (Char.ofNat (0x10000 + (high - 0xD800) * 0x400 + (low - 0xDC00)) :: characters)

theorem isHighSurrogate_iff {code : Nat} :
    Token.isHighSurrogate code = true ↔ 0xD800 ≤ code ∧ code < 0xDC00 := by
  simp [Token.isHighSurrogate]

theorem isLowSurrogate_iff {code : Nat} :
    Token.isLowSurrogate code = true ↔ 0xDC00 ≤ code ∧ code < 0xE000 := by
  simp [Token.isLowSurrogate]

theorem noSurrogate_iff {code : Nat} :
    ¬ IsSurrogate code ↔
      Token.isHighSurrogate code = false ∧ Token.isLowSurrogate code = false := by
  rw [← Bool.not_eq_true, ← Bool.not_eq_true, isHighSurrogate_iff, isLowSurrogate_iff, IsSurrogate]
  omega

theorem joinPieces?_eq_some_iff {pieces : List Piece} {characters : List Char} :
    Token.joinPieces? pieces = some characters ↔ Means pieces characters := by
  constructor
  · intro joined
    induction pieces using Token.joinPieces?.induct generalizing characters with
    | case1 =>
        cases joined
        exact .nil
    | case2 character rest induction =>
        obtain ⟨later, found, rfl⟩ := Option.map_eq_some_iff.mp joined
        exact .character (induction found)
    | case3 high low rest isHigh isLow induction =>
        simp only [Token.joinPieces?, isHigh, isLow, if_true] at joined
        obtain ⟨later, found, rfl⟩ := Option.map_eq_some_iff.mp joined
        obtain ⟨highest, higher⟩ := isHighSurrogate_iff.mp isHigh
        obtain ⟨lowest, lower⟩ := isLowSurrogate_iff.mp isLow
        exact .pair highest higher lowest lower (induction found)
    | case4 high low rest isHigh noLow => simp [Token.joinPieces?, isHigh, noLow] at joined
    | case5 low next rest noHigh isLow => simp [Token.joinPieces?, noHigh, isLow] at joined
    | case6 code next rest noHigh noLow induction =>
        rw [Bool.not_eq_true] at noHigh noLow
        rw [joinPieces?_code noHigh noLow] at joined
        obtain ⟨later, found, rfl⟩ := Option.map_eq_some_iff.mp joined
        exact .code (noSurrogate_iff.mpr ⟨noHigh, noLow⟩) (induction found)
    | case7 code rest alone surrogate =>
        rcases rest with _ | ⟨next | low, rest⟩
        · simp [Token.joinPieces?, surrogate] at joined
        · simp [Token.joinPieces?, surrogate] at joined
        · exact absurd rfl (alone low rest)
    | case8 code rest alone noSurrogate induction =>
        rw [Bool.not_eq_true, Bool.or_eq_false_iff] at noSurrogate
        rw [joinPieces?_code noSurrogate.1 noSurrogate.2] at joined
        obtain ⟨later, found, rfl⟩ := Option.map_eq_some_iff.mp joined
        exact .code (noSurrogate_iff.mpr noSurrogate) (induction found)
  · intro means
    induction means with
    | nil => rfl
    | character _ induction => rw [Token.joinPieces?, induction, Option.map_some]
    | code single _ induction =>
        obtain ⟨noHigh, noLow⟩ := noSurrogate_iff.mp single
        rw [joinPieces?_code noHigh noLow, induction, Option.map_some]
    | pair highest higher lowest lower _ induction =>
        have isHigh := isHighSurrogate_iff.mpr ⟨highest, higher⟩
        have isLow := isLowSurrogate_iff.mpr ⟨lowest, lower⟩
        simp only [Token.joinPieces?, isHigh, isLow, if_true, induction, Option.map_some]

/-- The literal whose pieces are spelled like this. -/
def quoted (spellings : List (List Char)) : String :=
  String.ofList ('"' :: spellings.flatten ++ ['"'])

/-- String literals. One with a surrogate on its own is well formed, but means nothing. -/
inductive Literal : String → Value → Prop
  | text {spellings : List (List Char)} {pieces : List Piece} {characters : List Char} :
      List.Forall₂ Spells spellings pieces → Means pieces characters →
      Literal (quoted spellings) (.string (String.ofList characters))
  | unpaired {spellings : List (List Char)} {pieces : List Piece} :
      List.Forall₂ Spells spellings pieces → (∀ characters, ¬ Means pieces characters) →
      Literal (quoted spellings) .unreadable

/-- Text without quotation marks, backslashes and control characters stands for itself. -/
theorem literal_plain (text : String) (plain : text.toList.all (fun character =>
      decide (character ≠ '"' ∧ character ≠ '\\' ∧ 32 ≤ character.toNat)) = true) :
    Literal ("\"" ++ text ++ "\"") (.string text) := by
  have spells : List.Forall₂ Spells (text.toList.map ([·])) (text.toList.map Piece.character) := by
    rw [List.forall₂_map_left_iff, List.forall₂_map_right_iff, List.forall₂_same]
    intro character inside
    obtain ⟨noQuote, noBackslash, noControl⟩ :=
      of_decide_eq_true (List.all_eq_true.mp plain character inside)
    exact .character noQuote noBackslash noControl
  have means : ∀ characters : List Char, Means (characters.map Piece.character) characters := by
    intro characters
    induction characters with
    | nil => exact .nil
    | cons character characters induction => exact .character induction
  have whole : quoted (text.toList.map ([·])) = "\"" ++ text ++ "\"" := by
    rw [← String.toList_inj, quoted]
    simp [← List.flatMap_def]
  have literal := Literal.text spells (means text.toList)
  rwa [whole, String.ofList_toList] at literal

theorem escaped?_of_mem :
    ∀ escape ∈ shortEscapes, escape.1 ≠ 'u' ∧ Token.escaped? escape.1 = some escape.2 := by
  decide

theorem hexValue?_of_isHexDigit {digit : Char} (hex : IsHexDigit digit) :
    Token.hexValue? digit = some (Numeral.digitsValue 16 [digit]) := by
  have order : ∀ first second : Char, first ≤ second ↔ first.toNat ≤ second.toNat := fun _ _ => by
    rw [Char.le_def, UInt32.le_iff_toNat_le]
    rfl
  have value : Numeral.digitsValue 16 [digit] = if digit.toNat < 58 then digit.toNat - 48
      else if digit.toNat < 97 then digit.toNat - 55 else digit.toNat - 87 := by
    simp [Numeral.digitsValue]
  have bounds : '0'.toNat = 48 ∧ '9'.toNat = 57 ∧ 'a'.toNat = 97 ∧ 'f'.toNat = 102 ∧
      'A'.toNat = 65 ∧ 'F'.toNat = 70 := by decide
  simp only [IsHexDigit, order] at hex
  rw [value, Token.hexValue?]
  simp only [Char.isDigit_iff_toNat, order]
  split_ifs <;> first | rfl | omega

/-- Each digit moves those before it up by one place. -/
theorem run_hex {digits : List Char} (hex : ∀ digit ∈ digits, IsHexDigit digit)
    (filled : digits ≠ []) (pieces : List Piece) (code : Nat) (rest : List Char) (state : State) :
    run (.hex pieces digits.length code) (digits ++ rest) state =
      run (.string (.code (digits.foldl (fun value digit =>
        value * 16 + Numeral.digitsValue 16 [digit]) code) :: pieces)) rest state := by
  induction digits generalizing code with
  | nil => exact absurd rfl filled
  | cons digit digits induction =>
      have value := hexValue?_of_isHexDigit (hex digit List.mem_cons_self)
      have others : ∀ other ∈ digits, IsHexDigit other :=
        fun other inside => hex other (List.mem_cons_of_mem _ inside)
      rw [List.cons_append, List.foldl_cons, List.length_cons]
      by_cases last : digits = []
      · have advance : Token.advance? digit (.hex pieces 1 code) =
            some ([], .string (.code (code * 16 + Numeral.digitsValue 16 [digit]) :: pieces)) := by
          simp [Token.advance?, value]
        rw [last]
        exact run_within advance _ _
      · have advance : Token.advance? digit (.hex pieces (digits.length + 1) code) =
            some ([], .hex pieces digits.length
              (code * 16 + Numeral.digitsValue 16 [digit])) := by
          simp [Token.advance?, value, last]
        rw [run_within advance, induction others last]

theorem run_spells {text : List Char} {piece : Piece} (spells : Spells text piece)
    (pieces : List Piece) (rest : List Char) (state : State) :
    run (.string pieces) (text ++ rest) state = run (.string (piece :: pieces)) rest state := by
  cases spells with
  | @character character noQuote noBackslash noControl =>
      have kept : Token.advance? character (.string pieces) =
          some ([], .string (.character character :: pieces)) := by
        simp [Token.advance?, noQuote, noBackslash, noControl]
      exact run_within kept _ _
  | short listed =>
      obtain ⟨noCode, meant⟩ := escaped?_of_mem _ listed
      exact run_shortEscape noCode meant _ _ _
  | @code digits four hex =>
      have opened : Token.advance? '\\' (.string pieces) = some ([], .escape pieces) := rfl
      have announced : Token.advance? 'u' (.escape pieces) = some ([], .hex pieces 4 0) := rfl
      have filled : digits ≠ [] := by
        rintro rfl
        cases four
      rw [List.cons_append, List.cons_append, run_within opened, run_within announced, ← four,
        run_hex hex filled]
      simp [Numeral.digitsValue]

theorem run_spellings {spellings : List (List Char)} {pieces : List Piece}
    (spells : List.Forall₂ Spells spellings pieces) (taken : List Piece) (rest : List Char)
    (state : State) :
    run (.string taken) (spellings.flatten ++ rest) state =
      run (.string (pieces.reverse ++ taken)) rest state := by
  induction spells generalizing taken with
  | nil => rfl
  | cons first _ induction =>
      rw [List.flatten_cons, List.append_assoc, run_spells first, induction]
      simp

theorem takenAs_literal {text : String} {value : Value} (literal : Literal text value) :
    TakenAs text value := by
  have opened : Token.advance? '"' .between = some ([], .string []) := rfl
  have read : ∀ {spellings : List (List Char)} {pieces : List Piece},
      List.Forall₂ Spells spellings pieces → Token.ofPieces pieces = .string value →
        TakenAs (quoted spellings) value := by
    intro spellings pieces spells meant rest state
    have closed : Token.advance? '"' (.string pieces.reverse) = some ([.string value], .between) := by
      simp [Token.advance?, meant]
    rw [quoted, String.toList_ofList, List.cons_append, List.cons_append, List.append_assoc,
      List.singleton_append, run_within opened, run_spellings spells, List.append_nil,
      run_token closed]
  cases literal with
  | text spells means =>
      apply read spells
      rw [Token.ofPieces, joinPieces?_eq_some_iff.mpr means]
  | @unpaired spellings pieces spells alone =>
      apply read spells
      have none : Token.joinPieces? pieces = none := by
        rw [Option.eq_none_iff_forall_ne_some]
        intro characters joined
        exact alone characters (joinPieces?_eq_some_iff.mp joined)
      rw [Token.ofPieces, none]

theorem TakenAs.reads {text : String} {value : Value} (taken : TakenAs text value) :
    Reads 0 text value := by
  intro stack expected rest takes room delimited
  rw [taken, step?_begin takes (by simp)]
  rfl

/-! ## Blanks -/

def IsBlank (text : String) : Prop :=
  ∀ character ∈ text.toList, character ∈ [' ', '\n', '\t', '\r']

/-- A part with blanks around it. -/
inductive Padded {Part : Type} (Denotes : String → Part → Prop) : String → Part → Prop
  | mk {before text after : String} {part : Part} : IsBlank before → Denotes text part →
      IsBlank after → Padded Denotes (before ++ text ++ after) part

theorem Padded.tight {Part : Type} {Denotes : String → Part → Prop} {text : String} {part : Part}
    (denotes : Denotes text part) : Padded Denotes text part := by
  have blank : IsBlank "" := by simp [IsBlank]
  have padded := Padded.mk blank denotes blank
  rwa [String.empty_append, String.append_empty] at padded

theorem run_blank {blanks : String} (blank : IsBlank blanks) (rest : List Char) (state : State) :
    run .between (blanks.toList ++ rest) state = run .between rest state := by
  unfold IsBlank at blank
  generalize blanks.toList = characters at blank
  induction characters with
  | nil => rfl
  | cons character others induction =>
      have known := List.contains_iff_mem.mpr (blank character List.mem_cons_self)
      have skipped : Token.advance? character .between = some ([], .between) := by
        rw [Token.advance?, Token.start?, Token.isBlank, if_pos known]
      have later := fun other inside => blank other (List.mem_cons_of_mem character inside)
      rw [List.cons_append, run_within skipped, induction later]

theorem delimited_blank {blanks : String} {rest : List Char} (blank : IsBlank blanks)
    (delimited : Delimited rest) : Delimited (blanks.toList ++ rest) := by
  have known : [' ', '\n', '\t', '\r'].all (fun character =>
      decide (character.isAlpha = false ∧ Token.isNumeralPart character = false)) = true := by
    decide
  unfold IsBlank at blank
  cases characters : blanks.toList with
  | nil => exact delimited
  | cons character others =>
      rw [characters] at blank
      obtain ⟨noLetter, noNumeral⟩ := of_decide_eq_true
        (List.all_eq_true.mp known character (blank character List.mem_cons_self))
      exact delimited_cons noLetter noNumeral _

theorem TakenAs.padded {text : String} {value : Value} (padded : Padded Literal text value) :
    TakenAs text value := by
  obtain ⟨front, literal, back⟩ := padded
  intro rest state
  rw [String.toList_append, String.toList_append, List.append_assoc, List.append_assoc,
    run_blank front, takenAs_literal literal]
  simp only [run_blank back]

theorem Reads.padded {depth : Nat} {text : String} {value : Value}
    (padded : Padded (Reads depth) text value) : Reads depth text value := by
  obtain ⟨front, reads, back⟩ := padded
  intro stack expected rest takes room delimited
  rw [String.toList_append, String.toList_append, List.append_assoc, List.append_assoc,
    run_blank front, reads takes room (delimited_blank back delimited)]
  simp only [run_blank back]

/-! ## Literals -/

/-- A number without sign, point and exponent is itself, if it fits 64 bits. -/
def numeralValue (numeral : Numeral) : Value :=
  match numeral.natural? with
  | some number => .natural number
  | none => .number true

/-- Texts of values that hold no others, with numerals that a double can hold. -/
inductive Scalar : String → Value → Prop
  | null : Scalar "null" .null
  | flag (flag : Bool) : Scalar (flagText flag) (.bool flag)
  | numeral {numeral : Numeral} {mark : Char} : numeral.Strict → mark = 'e' ∨ mark = 'E' →
      numeral.isFiniteRounded = true →
      Scalar (String.ofList (numeral.text mark)) (numeralValue numeral)
  | string {text : String} {value : Value} : Literal text value → Scalar text value

theorem reads_null : Reads 0 "null" .null := by
  intro stack expected rest takes room delimited
  have token : run .between ("null".toList ++ rest) ⟨stack, expected⟩ =
      (State.step? ⟨stack, expected⟩ (.plain .null)).bind fun reached =>
        run .between rest reached :=
    run_name 'n' ['u', 'l', 'l'] rfl rfl rfl delimited _
  rw [token, step?_begin takes (by simp)]
  rfl

theorem isNumeralPart_of_mem {numeral : Numeral} (strict : numeral.Strict) {mark : Char}
    (marks : mark = 'e' ∨ mark = 'E') :
    ∀ character ∈ numeral.text mark, Token.isNumeralPart character = true := by
  have digits : ∀ {text : List Char}, Numeral.AreDigits text →
      ∀ character ∈ text, Token.isNumeralPart character = true := by
    intro text all character inside
    simp [Token.isNumeralPart, all.2 character inside]
  have signs : ∀ character, character = '+' ∨ character = '-' →
      Token.isNumeralPart character = true := by
    rintro character (rfl | rfl) <;> decide
  intro character inside
  simp only [Numeral.text, List.mem_append] at inside
  rcases inside with sign | whole | fraction | exponent
  · exact signs character (Or.inr (strict.sign character (by simpa using sign)))
  · exact digits strict.whole character whole
  · cases written : numeral.fraction with
    | none => simp [Numeral.fractionText, written] at fraction
    | some text =>
        rw [Numeral.fractionText, written, Option.elim_some, List.mem_cons] at fraction
        rcases fraction with rfl | digit
        · decide
        · exact digits (strict.fraction text written) character digit
  · cases written : numeral.exponent with
    | none => simp [Numeral.exponentText, written] at exponent
    | some part =>
        rw [Numeral.exponentText, written, Option.elim_some, List.cons_append, List.mem_cons,
          List.mem_append] at exponent
        rcases exponent with rfl | sign | digit
        · rcases marks with rfl | rfl <;> decide
        · exact signs character
            (strict.exponentSign part written character (by simpa using sign))
        · exact digits (strict.exponent part written) character digit

theorem ofNumeral?_text {numeral : Numeral} (strict : numeral.Strict) {mark : Char}
    (marks : mark = 'e' ∨ mark = 'E') (finite : numeral.isFiniteRounded = true) :
    Token.ofNumeral? (numeral.text mark) = some (.plain (numeralValue numeral)) := by
  have kept : (some numeral).filter Numeral.isStrict = some numeral := by
    simp [Numeral.isStrict_of_strict strict]
  rw [Token.ofNumeral?, Numeral.read?_text strict marks, kept, Option.map_some, numeralValue,
    finite]
  cases numeral.natural? <;> rfl

theorem start?_numeralPart {character : Char} (part : Token.isNumeralPart character = true) :
    Token.start? character = some ([], .numeral [character]) := by
  have others : ['"', ' ', '\n', '\t', '\r'].any Token.isNumeralPart = false := by decide
  have absent : character ∉ ['"', ' ', '\n', '\t', '\r'] :=
    fun inside => List.any_eq_false.mp others character inside part
  rw [List.mem_cons, not_or] at absent
  obtain ⟨noQuote, noBlank⟩ := absent
  simp only [Token.start?, Token.isBlank, List.contains_iff_mem, noBlank, noQuote, part, if_false,
    if_true]

theorem reads_numeral {numeral : Numeral} (strict : numeral.Strict) {mark : Char}
    (marks : mark = 'e' ∨ mark = 'E') (finite : numeral.isFiniteRounded = true) :
    Reads 0 (String.ofList (numeral.text mark)) (numeralValue numeral) := by
  intro stack expected rest takes room delimited
  have parts := isNumeralPart_of_mem strict marks
  have token := ofNumeral?_text strict marks finite
  have filled : numeral.text mark ≠ [] := by
    simp [Numeral.text, strict.whole.1]
  obtain ⟨first, others, written⟩ := List.exists_cons_of_ne_nil filled
  rw [written] at parts token
  have begun : Token.advance? first .between = some ([], .numeral [first]) :=
    start?_numeralPart (parts first List.mem_cons_self)
  have taken : ∀ character ∈ others, ∀ characters, Token.advance? character (.numeral characters) =
      some ([], .numeral (character :: characters)) := by
    intro character inside characters
    rw [Token.advance?, if_pos (parts character (List.mem_cons_of_mem _ inside))]
  have whole : Token.ofNumeral? (others.reverse ++ [first]).reverse =
      some (.plain (numeralValue numeral)) := by
    simpa using token
  rw [String.toList_ofList, written, List.cons_append, run_within begun, run_collected taken,
    run_numeral whole delimited, step?_begin takes (by simp)]
  rfl

theorem reads_scalar {text : String} {value : Value} (scalar : Scalar text value) :
    Reads 0 text value := by
  cases scalar with
  | null => exact reads_null
  | flag flag => exact reads_flagText flag
  | numeral strict marks finite => exact reads_numeral strict marks finite
  | string literal => exact (takenAs_literal literal).reads

/-! ## Lists and tables -/

/-- Parts between commas, or blanks where there are no parts. -/
inductive Parts {Part : Type} (Denotes : String → Part → Prop) : String → List Part → Prop
  | none {blanks : String} : IsBlank blanks → Parts Denotes blanks []
  | some {texts : List String} {parts : List Part} : texts ≠ [] →
      List.Forall₂ Denotes texts parts → Parts Denotes (",".intercalate texts) parts

/-- A member of a table: its key and its value with a colon between them. -/
inductive Member (Denotes : String → Value → Prop) : String → Value × Value → Prop
  | mk {keyText text : String} {key value : Value} : Padded Literal keyText key →
      Padded Denotes text value → Member Denotes (keyText ++ ":" ++ text) (key, value)

/-- Lists and tables of what the texts inside denote. -/
inductive Compound (Denotes : String → Value → Prop) : String → Value → Prop
  | list {inner : String} {items : List Value} : Parts (Padded Denotes) inner items →
      Compound Denotes ("[" ++ inner ++ "]") (.list items)
  | table {inner : String} {entries : List (Value × Value)} : Parts (Member Denotes) inner entries →
      Compound Denotes ("\x7b" ++ inner ++ "\x7d") (.table entries)

/-- The text is JSON for the value, with at most `depth` lists and tables inside each other. -/
def Denotes : Nat → String → Value → Prop
  | 0, text, value => Scalar text value
  | depth + 1, text, value => Scalar text value ∨ Compound (Denotes depth) text value

theorem Open.fills {Part : Type} {holding : List Part → List Frame} {Takes : Expected → Prop}
    {first later : Expected} {bracket : Char} {close : Token}
    (opened : Open holding Takes first later bracket close) {inner : String} {parts : List Part}
    (written : Parts (Joins holding Takes) inner parts) :
    Fills holding first bracket close inner parts := by
  cases written with
  | none blank =>
      intro rest
      rw [run_blank blank, run_token opened.closes, opened.empty]
      rfl
  | some _ joins => exact opened.run_separated joins

theorem Parts.imp {Part : Type} {Denotes Denotes' : String → Part → Prop}
    (each : ∀ {text part}, Denotes text part → Denotes' text part) {inner : String}
    {parts : List Part} (written : Parts Denotes inner parts) : Parts Denotes' inner parts := by
  cases written with
  | none blank => exact .none blank
  | some filled all => exact .some filled (all.imp fun _ _ => each)

theorem Padded.imp {Part : Type} {Denotes Denotes' : String → Part → Prop}
    (each : ∀ {text part}, Denotes text part → Denotes' text part) {text : String} {part : Part}
    (padded : Padded Denotes text part) : Padded Denotes' text part := by
  obtain ⟨front, denotes, back⟩ := padded
  exact .mk front (each denotes) back

theorem Member.imp {Denotes Denotes' : String → Value → Prop}
    (each : ∀ {text value}, Denotes text value → Denotes' text value) {text : String}
    {entry : Value × Value} (member : Member Denotes text entry) : Member Denotes' text entry := by
  obtain ⟨key, value⟩ := member
  exact .mk key (value.imp each)

theorem Compound.imp {Denotes Denotes' : String → Value → Prop}
    (each : ∀ {text value}, Denotes text value → Denotes' text value) {text : String}
    {value : Value} (compound : Compound Denotes text value) : Compound Denotes' text value := by
  cases compound with
  | list written => exact .list (written.imp fun padded => padded.imp each)
  | table written => exact .table (written.imp fun member => member.imp each)

theorem reads_compound {depth : Nat} {text : String} {value : Value}
    (compound : Compound (Reads depth) text value) : Reads (depth + 1) text value := by
  cases compound with
  | list written =>
      apply reads_list
      intro stack room
      apply (open_list stack).fills
      apply written.imp
      intro text item padded
      have reads : Reads depth text item := Reads.padded padded
      intro taken expected rest takes delimited
      exact reads.joins room takes delimited
  | table written =>
      apply reads_table
      intro stack room
      apply (open_table stack).fills
      apply written.imp
      rintro text _ ⟨key, value⟩
      exact joins_member (TakenAs.padded key) (Reads.padded value) room

/-- Every text of the grammar is read as what it denotes. -/
theorem reads_of_denotes {depth : Nat} {text : String} {value : Value}
    (denotes : Denotes depth text value) : Reads depth text value := by
  induction depth generalizing text value with
  | zero => exact reads_scalar denotes
  | succ depth induction =>
      rcases denotes with scalar | compound
      · intro stack expected rest takes room delimited
        exact reads_scalar scalar takes (by omega) delimited
      · apply reads_compound
        exact compound.imp induction

theorem read?_of_denotes {depth : Nat} {text : String} {value : Value}
    (denotes : Padded (Denotes depth) text value) (shallow : depth ≤ State.depthLimit) :
    read? text = some value :=
  read?_of_reads (Reads.padded (denotes.imp reads_of_denotes)) shallow

/-! ## Keys -/

theorem Parts.exists_text {Part : Type} {Denotes : String → Part → Prop} {inner : String}
    {parts : List Part} (written : Parts Denotes inner parts) :
    ∀ part ∈ parts, ∃ text, Denotes text part := by
  cases written with
  | none _ => simp
  | some filled all =>
      clear filled
      induction all with
      | nil => simp
      | cons first _ induction => exact List.forall_mem_cons.mpr ⟨⟨_, first⟩, induction⟩

theorem hasTextKeys_of_scalar {text : String} {value : Value} (scalar : Scalar text value) :
    value.hasTextKeys = true := by
  cases scalar with
  | null => rfl
  | flag flag => rfl
  | @numeral numeral =>
      unfold numeralValue
      cases numeral.natural? <;> rfl
  | string literal => cases literal <;> rfl

/-- A key is text, unless it cannot be read. -/
theorem hasTextKeys_of_denotes {depth : Nat} {text : String} {value : Value}
    (denotes : Denotes depth text value) (readable : value.isReadable = true) :
    value.hasTextKeys = true := by
  induction depth generalizing text value with
  | zero => exact hasTextKeys_of_scalar denotes
  | succ depth induction =>
      rcases denotes with scalar | ⟨written⟩ | @⟨_, entries, written⟩
      · exact hasTextKeys_of_scalar scalar
      · apply Value.itemsHaveTextKeys_iff.mpr
        intro item inside
        obtain ⟨_, _, inner, _⟩ := written.exists_text item inside
        exact induction inner (Value.itemsReadable_iff.mp readable item inside)
      · have each : ∀ entry ∈ entries,
            (∃ name, entry.1 = .string name) ∧ entry.2.hasTextKeys = true := by
          intro entry inside
          obtain ⟨_, ⟨_, key, _⟩, _, inner, _⟩ := written.exists_text entry inside
          obtain ⟨readableKey, readableValue⟩ := Value.entriesReadable_iff.mp readable _ inside
          refine ⟨?_, induction inner readableValue⟩
          cases key with
          | text _ _ => exact ⟨_, rfl⟩
          | unpaired _ _ => cases readableKey
        exact Value.entriesHaveTextKeys_iff.mpr
          ⟨fun entry inside => (each entry inside).1, fun entry inside => (each entry inside).2⟩

end Json

end ScopedSchema
