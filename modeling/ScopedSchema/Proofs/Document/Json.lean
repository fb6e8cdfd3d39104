import Mathlib.Data.List.Forall2
import ScopedSchema.Document.Json.Reader
import ScopedSchema.Document.Json.Writer

/-!
# Reading what was written

The compact writer puts texts of JSON together, and the reader takes a text apart one character at a
time. A text reads as a value if the reader, wherever a value may stand, takes all of it and gives
the value to what is open there. Quoted text and flags read as what they were written from, and
lists and tables read as their parts do, so a written document is read by induction on the way it
was put together.
-/

namespace ScopedSchema

namespace Json

/-! ## Taking characters -/

/-- Takes the characters one by one, and every token as soon as it is complete. -/
def run (mode : Mode) (text : List Char) (state : State) : Option State :=
  (Token.scan? mode text).bind fun tokens => tokens.foldlM State.step? state

theorem read?_eq_run (text : String) :
    read? text = (run .between text.toList State.initial).bind State.result? := by
  rw [run, Option.bind_assoc]
  rfl

theorem run_nil (mode : Mode) (state : State) :
    run mode [] state = (Token.finish? mode).bind fun tokens => tokens.foldlM State.step? state :=
  rfl

theorem run_cons (mode : Mode) (character : Char) (rest : List Char) (state : State) :
    run mode (character :: rest) state =
      (Token.advance? character mode).bind fun taken =>
        (taken.1.foldlM State.step? state).bind fun next => run taken.2 rest next := by
  rw [run, Token.scan?]
  cases Token.advance? character mode with
  | none => rfl
  | some taken =>
    obtain ⟨tokens, next⟩ := taken
    simp only [run, Option.bind_eq_bind, Option.bind_some, Option.pure_def, Option.bind_assoc,
      List.foldlM_append]
    -- the tokens of this character come before all others, so neither failure hides the other
    cases tokens.foldlM State.step? state with
    | none => cases Token.scan? next rest <;> rfl
    | some reached => rfl

/-- A character that completes no token only changes the mode. -/
theorem run_within {mode next : Mode} {character : Char}
    (advance : Token.advance? character mode = some ([], next)) (rest : List Char)
    (state : State) : run mode (character :: rest) state = run next rest state := by
  rw [run_cons, advance]
  rfl

theorem run_token {mode next : Mode} {character : Char} {token : Token}
    (advance : Token.advance? character mode = some ([token], next)) (rest : List Char)
    (state : State) :
    run mode (character :: rest) state = (state.step? token).bind fun reached =>
      run next rest reached := by
  rw [run_cons, advance]
  simp

/-- The text goes on with nothing that a word or a numeral in front of it could take in. -/
def Delimited (rest : List Char) : Prop :=
  ∀ character ∈ rest.head?, character.isAlpha = false ∧ Token.isNumeralPart character = false

theorem delimited_nil : Delimited [] := by simp [Delimited]

theorem delimited_cons {character : Char} (noLetter : character.isAlpha = false)
    (noNumeral : Token.isNumeralPart character = false) (rest : List Char) :
    Delimited (character :: rest) := by
  simpa [Delimited] using ⟨noLetter, noNumeral⟩

/-- A mode that the end of the text would close with one token is closed with it by any character
that it cannot take in. -/
theorem run_closed {mode : Mode} {token : Token} {rest : List Char}
    (finish : Token.finish? mode = some [token])
    (advance : ∀ character ∈ rest.head?, Token.advance? character mode =
      (Token.start? character).map fun taken => (token :: taken.1, taken.2)) (state : State) :
    run mode rest state = (state.step? token).bind fun reached => run .between rest reached := by
  have opened : ∀ character, Token.advance? character .between = Token.start? character :=
    fun _ => rfl
  have done : ∀ reached, run .between [] reached = some reached := fun _ => rfl
  cases rest with
  | nil => simp [run_nil, finish, done]
  | cons character rest =>
    simp only [run_cons, advance character rfl, opened]
    -- the character that closes the mode starts a token of its own, or none at all
    cases Token.start? character with
    | none => cases state.step? token <;> rfl
    | some taken => simp [Option.bind_assoc]

theorem run_word {letters rest : List Char} {token : Token}
    (word : Token.ofWord? letters.reverse = some token) (delimited : Delimited rest)
    (state : State) :
    run (.word letters) rest state = (state.step? token).bind fun reached =>
      run .between rest reached := by
  apply run_closed
  · rw [Token.finish?, word, Option.map_some]
  · intro character first
    rw [Token.advance?, if_neg (by simp [(delimited character first).1]), word]
    cases Token.start? character <;> rfl

theorem run_numeral {characters rest : List Char} {token : Token}
    (numeral : Token.ofNumeral? characters.reverse = some token) (delimited : Delimited rest)
    (state : State) :
    run (.numeral characters) rest state = (state.step? token).bind fun reached =>
      run .between rest reached := by
  apply run_closed
  · rw [Token.finish?, numeral, Option.map_some]
  · intro character first
    rw [Token.advance?, if_neg (by simp [(delimited character first).2]), numeral]
    cases Token.start? character <;> rfl

/-! ## Quoted text -/

theorem hexValue?_hexDigit :
    ∀ value < 16, Token.hexValue? (Quoted.hexDigit value) = some value := by
  decide

/-- What an escaped character is read as: a code only if it has no escape of one letter. -/
def pieceOf (character : Char) : Piece :=
  if ['\n', '\r', '\t', '\x08', '\x0c'].contains character then .character character
  else if character.toNat < 32 then .code character.toNat
  else .character character

/-- A short escape names its character by one letter. -/
theorem run_shortEscape {letter character : Char} (noCode : letter ≠ 'u')
    (meant : Token.escaped? letter = some character) (pieces : List Piece) (rest : List Char)
    (state : State) :
    run (.string pieces) ('\\' :: letter :: rest) state =
      run (.string (.character character :: pieces)) rest state := by
  have opened : Token.advance? '\\' (.string pieces) = some ([], .escape pieces) := rfl
  have named : Token.advance? letter (.escape pieces) =
      some ([], .string (.character character :: pieces)) := by
    simp [Token.advance?, noCode, meant]
  rw [run_within opened, run_within named]

/-- Below 32 the first two of the four digits are zeros. -/
theorem run_codeEscape {code : Nat} (small : code < 32) (pieces : List Piece) (rest : List Char)
    (state : State) :
    run (.string pieces) ('\\' :: 'u' :: '0' :: '0' :: Quoted.hexDigit (code / 16) ::
        Quoted.hexDigit (code % 16) :: rest) state =
      run (.string (.code code :: pieces)) rest state := by
  have opened : Token.advance? '\\' (.string pieces) = some ([], .escape pieces) := rfl
  have announced : Token.advance? 'u' (.escape pieces) = some ([], .hex pieces 4 0) := rfl
  have first : Token.advance? '0' (.hex pieces 4 0) = some ([], .hex pieces 3 0) := rfl
  have second : Token.advance? '0' (.hex pieces 3 0) = some ([], .hex pieces 2 0) := rfl
  have third : Token.advance? (Quoted.hexDigit (code / 16)) (.hex pieces 2 0) =
      some ([], .hex pieces 1 (code / 16)) := by
    simp [Token.advance?, hexValue?_hexDigit (code / 16) (by omega)]
  have fourth : Token.advance? (Quoted.hexDigit (code % 16)) (.hex pieces 1 (code / 16)) =
      some ([], .string (.code code :: pieces)) := by
    have whole : code / 16 * 16 + code % 16 = code := by omega
    simp [Token.advance?, hexValue?_hexDigit (code % 16) (by omega), whole]
  rw [run_within opened, run_within announced, run_within first, run_within second,
    run_within third, run_within fourth]

theorem run_escape (pieces : List Piece) (character : Char) (rest : List Char) (state : State) :
    run (.string pieces) (Quoted.escape character ++ rest) state =
      run (.string (pieceOf character :: pieces)) rest state := by
  unfold Quoted.escape
  -- seven characters have an escape of one letter
  iterate 7
    split
    · subst_vars
      exact run_shortEscape (by decide) rfl _ _ _
  rename_i noQuote noBackslash noLine noReturn noTab noBack noFeed
  split
  · rename_i control
    have piece : pieceOf character = .code character.toNat := by
      simp [pieceOf, noLine, noReturn, noTab, noBack, noFeed, control]
    rw [piece]
    exact run_codeEscape control _ _ _
  · rename_i noControl
    have piece : pieceOf character = .character character := by
      simp [pieceOf, noControl]
    have kept : Token.advance? character (.string pieces) =
        some ([], .string (.character character :: pieces)) := by
      simp [Token.advance?, noQuote, noBackslash, noControl]
    rw [piece]
    exact run_within kept _ _

theorem run_escapes (characters : List Char) (pieces : List Piece) (rest : List Char)
    (state : State) :
    run (.string pieces) (characters.flatMap Quoted.escape ++ rest) state =
      run (.string ((characters.map pieceOf).reverse ++ pieces)) rest state := by
  induction characters generalizing pieces with
  | nil => rfl
  | cons character characters induction =>
    rw [List.flatMap_cons, List.append_assoc, run_escape, induction]
    simp

theorem joinPieces?_code {code : Nat} (noHigh : Token.isHighSurrogate code = false)
    (noLow : Token.isLowSurrogate code = false) (rest : List Piece) :
    Token.joinPieces? (.code code :: rest) =
      (Token.joinPieces? rest).map (Char.ofNat code :: ·) := by
  rcases rest with _ | ⟨character | low, rest⟩ <;> simp [Token.joinPieces?, noHigh, noLow]

theorem joinPieces?_map_pieceOf (characters : List Char) :
    Token.joinPieces? (characters.map pieceOf) = some characters := by
  induction characters with
  | nil => rfl
  | cons character characters induction =>
    simp only [List.map_cons, pieceOf]
    split
    · rw [Token.joinPieces?, induction, Option.map_some]
    split
    · rename_i small
      have noHigh : Token.isHighSurrogate character.toNat = false := by
        simp [Token.isHighSurrogate]
        omega
      have noLow : Token.isLowSurrogate character.toNat = false := by
        simp [Token.isLowSurrogate]
        omega
      rw [joinPieces?_code noHigh noLow, induction, Option.map_some, Char.ofNat_toNat]
    · rw [Token.joinPieces?, induction, Option.map_some]

theorem run_encode (text : String) (rest : List Char) (state : State) :
    run .between ((Quoted.encode text).toList ++ rest) state =
      (state.step? (.string (.string text))).bind fun reached => run .between rest reached := by
  have opened : Token.advance? '"' .between = some ([], .string []) := rfl
  have closed : Token.advance? '"' (.string (text.toList.map pieceOf).reverse) =
      some ([.string (.string text)], .between) := by
    simp [Token.advance?, Token.ofPieces, joinPieces?_map_pieceOf]
  rw [Quoted.encode, String.toList_ofList, List.cons_append, List.cons_append, List.append_assoc,
    List.singleton_append, run_within opened, run_escapes, List.append_nil, run_token closed]

/-! ## Values -/

/-- A value may stand next. -/
def Expected.TakesValue (expected : Expected) : Prop :=
  expected = .value ∨ expected = .valueOrClose

theorem step?_begin {expected : Expected} (takes : expected.TakesValue) {token : Token}
    (noClose : token ≠ .closeList) (stack : List Frame) :
    State.step? ⟨stack, expected⟩ token = State.begin? stack token := by
  rcases takes with rfl | rfl
  · rfl
  · cases token with
    | closeList => exact absurd rfl noClose
    | _ => rfl

/-- Wherever a value may stand and the nesting leaves room for `depth` more levels, the reader takes
the text as the value. -/
def Reads (depth : Nat) (text : String) (value : Value) : Prop :=
  ∀ {stack : List Frame} {expected : Expected} {rest : List Char}, expected.TakesValue →
    stack.length + depth ≤ State.depthLimit → Delimited rest →
      run .between (text.toList ++ rest) ⟨stack, expected⟩ =
        (State.complete? value stack).bind fun reached => run .between rest reached

theorem Reads.deeper {depth deeper : Nat} {text : String} {value : Value}
    (reads : Reads depth text value) (room : depth ≤ deeper) : Reads deeper text value := by
  intro stack expected rest takes fits delimited
  exact reads takes (by omega) delimited

theorem reads_encode (text : String) : Reads 0 (Quoted.encode text) (.string text) := by
  intro stack expected rest takes room delimited
  rw [run_encode, step?_begin takes (by simp)]
  rfl

/-- A mode that collects characters collects all of a text. -/
theorem run_collected {collect : List Char → Mode} {text : List Char}
    (takes : ∀ character ∈ text, ∀ taken,
      Token.advance? character (collect taken) = some ([], collect (character :: taken)))
    (taken rest : List Char) (state : State) :
    run (collect taken) (text ++ rest) state =
      run (collect (text.reverse ++ taken)) rest state := by
  induction text generalizing taken with
  | nil => rfl
  | cons character text induction =>
    have later := fun other inside => takes other (List.mem_cons_of_mem character inside)
    rw [List.cons_append, run_within (takes character List.mem_cons_self taken), induction later]
    simp

/-- A word ends in front of the first character that is no letter. -/
theorem run_name (first : Char) (letters : List Char) {rest : List Char} {token : Token}
    (starts : Token.start? first = some ([], .word [first]))
    (alphabetic : letters.all Char.isAlpha = true)
    (word : Token.ofWord? (first :: letters) = some token) (delimited : Delimited rest)
    (state : State) :
    run .between (first :: letters ++ rest) state =
      (state.step? token).bind fun reached => run .between rest reached := by
  have begun : Token.advance? first .between = some ([], .word [first]) := starts
  have whole : Token.ofWord? (letters.reverse ++ [first]).reverse = some token := by
    simpa using word
  have takes : ∀ letter ∈ letters, ∀ taken,
      Token.advance? letter (.word taken) = some ([], .word (letter :: taken)) := by
    intro letter inside taken
    rw [Token.advance?, if_pos (List.all_eq_true.mp alphabetic letter inside)]
  rw [List.cons_append, run_within begun, run_collected takes, run_word whole delimited]

theorem reads_flagText (flag : Bool) : Reads 0 (flagText flag) (.bool flag) := by
  intro stack expected rest takes room delimited
  have token : run .between ((flagText flag).toList ++ rest) ⟨stack, expected⟩ =
      (State.step? ⟨stack, expected⟩ (.plain (.bool flag))).bind fun reached =>
        run .between rest reached := by
    cases flag
    · exact run_name 'f' ['a', 'l', 's', 'e'] rfl rfl rfl delimited _
    · exact run_name 't' ['r', 'u', 'e'] rfl rfl rfl delimited _
  rw [token, step?_begin takes (by simp)]
  rfl

theorem read?_of_reads {depth : Nat} {text : String} {value : Value}
    (reads : Reads depth text value) (shallow : depth ≤ State.depthLimit) :
    read? text = some value := by
  have taken : run .between (text.toList ++ []) State.initial = some ⟨[], .nothing value⟩ := by
    rw [State.initial, reads (.inl rfl) (by simpa using shallow) delimited_nil]
    rfl
  rw [List.append_nil] at taken
  rw [read?_eq_run, taken]
  rfl

/-! ## Lists and tables -/

/-- The next key of a table may stand next. -/
def Expected.TakesKey (expected : Expected) : Prop := expected = .key ∨ expected = .keyOrClose

/-- Wherever a part may stand, the reader takes the text as one more part of what is open;
`holding` is the stack with the parts so far, the last one first. -/
def Joins {Part : Type} (holding : List Part → List Frame) (Takes : Expected → Prop)
    (text : String) (part : Part) : Prop :=
  ∀ {taken : List Part} {expected : Expected} {rest : List Char}, Takes expected →
    Delimited rest →
      run .between (text.toList ++ rest) ⟨holding taken, expected⟩ =
        run .between rest ⟨holding (part :: taken), .commaOrClose⟩

theorem Delimited.behind {rest : List Char} (delimited : Delimited rest) (texts : List String) :
    Delimited (texts.flatMap (fun text => ',' :: text.toList) ++ rest) := by
  cases texts with
  | nil => exact delimited
  | cons => exact delimited_cons rfl rfl _

theorem toList_intercalate_cons (first : String) (others : List String) :
    (",".intercalate (first :: others)).toList =
      first.toList ++ others.flatMap fun text => ',' :: text.toList := by
  induction others generalizing first with
  | nil => simp
  | cons second others induction =>
    rw [String.intercalate_cons_cons, String.toList_append, String.toList_append, induction]
    simp

/-- What stands between two brackets is taken as these parts, and then the closing bracket. -/
def Fills {Part : Type} (holding : List Part → List Frame) (first : Expected) (bracket : Char)
    (close : Token) (inner : String) (parts : List Part) : Prop :=
  ∀ rest, run .between (inner.toList ++ bracket :: rest) ⟨holding [], first⟩ =
    (State.step? ⟨holding parts.reverse, .commaOrClose⟩ close).bind fun reached =>
      run .between rest reached

/-- A list or table that is open keeps its parts in the stack `holding`. Its first part is expected
behind the opening bracket and each further one behind a comma; the closing bracket may follow a
part, and the opening bracket too. -/
structure Open {Part : Type} (holding : List Part → List Frame) (Takes : Expected → Prop)
    (first later : Expected) (bracket : Char) (close : Token) : Prop where
  takesFirst : Takes first
  takesLater : Takes later
  comma : ∀ taken, State.step? ⟨holding taken, .commaOrClose⟩ .comma = some ⟨holding taken, later⟩
  closes : Token.advance? bracket .between = some ([close], .between)
  noLetter : bracket.isAlpha = false
  noNumeral : Token.isNumeralPart bracket = false
  empty : State.step? ⟨holding [], first⟩ close = State.step? ⟨holding [], .commaOrClose⟩ close

theorem open_list (outer : List Frame) :
    Open (fun items => .list items :: outer) Expected.TakesValue .valueOrClose .value ']'
      .closeList :=
  ⟨.inr rfl, .inl rfl, fun _ => rfl, rfl, rfl, rfl, rfl⟩

theorem open_table (outer : List Frame) :
    Open (fun entries => .table entries :: outer) Expected.TakesKey .keyOrClose .key '\x7d'
      .closeTable :=
  ⟨.inr rfl, .inl rfl, fun _ => rfl, rfl, rfl, rfl, rfl⟩

namespace Open

variable {Part : Type} {holding : List Part → List Frame} {Takes : Expected → Prop}
  {first later : Expected} {bracket : Char} {close : Token}

theorem run_later (opened : Open holding Takes first later bracket close) {texts : List String}
    {parts : List Part} (joins : List.Forall₂ (Joins holding Takes) texts parts)
    (taken : List Part) {rest : List Char} (delimited : Delimited rest) :
    run .between (texts.flatMap (fun text => ',' :: text.toList) ++ rest)
        ⟨holding taken, .commaOrClose⟩ =
      run .between rest ⟨holding (parts.reverse ++ taken), .commaOrClose⟩ := by
  induction joins generalizing taken with
  | nil => rfl
  | cons join joins induction =>
    have separator : Token.advance? ',' .between = some ([.comma], .between) := rfl
    rw [List.flatMap_cons, List.append_assoc, List.cons_append, run_token separator,
      opened.comma, Option.bind_some, join opened.takesLater (delimited.behind _), induction]
    simp

/-- All parts between two brackets are taken, and then the closing bracket. -/
theorem run_separated (opened : Open holding Takes first later bracket close)
    {texts : List String} {parts : List Part}
    (joins : List.Forall₂ (Joins holding Takes) texts parts) :
    Fills holding first bracket close (",".intercalate texts) parts := by
  intro rest
  have delimited : Delimited (bracket :: rest) :=
    delimited_cons opened.noLetter opened.noNumeral rest
  cases joins with
  | nil =>
    rw [String.intercalate_nil, String.toList_empty, List.nil_append, run_token opened.closes,
      opened.empty]
    rfl
  | cons join joins =>
    rw [toList_intercalate_cons, List.append_assoc, join opened.takesFirst (delimited.behind _),
      opened.run_later joins _ delimited, run_token opened.closes, List.reverse_cons]

end Open

theorem sealed_eq {value : Value} {outer : List Frame} (room : outer.length < State.depthLimit) :
    State.sealed value outer = value := by
  rw [State.sealed, if_neg (by omega)]

theorem reads_list {depth : Nat} {inner : String} {items : List Value}
    (fills : ∀ stack : List Frame, stack.length + (depth + 1) ≤ State.depthLimit →
      Fills (fun items => .list items :: stack) .valueOrClose ']' .closeList inner items) :
    Reads (depth + 1) ("[" ++ inner ++ "]") (.list items) := by
  intro stack expected rest takes room delimited
  have opens : Token.advance? '[' .between = some ([.openList], .between) := rfl
  have closed : State.step? ⟨.list items.reverse :: stack, .commaOrClose⟩ .closeList =
      State.complete? (.list items) stack := by
    simp only [State.step?, State.close?, List.reverse_reverse]
    rw [sealed_eq (by omega)]
  have characters : ("[" ++ inner ++ "]").toList ++ rest = '[' :: (inner.toList ++ ']' :: rest) := by
    simp
  rw [characters, run_token opens, step?_begin takes (by simp), State.begin?, Option.bind_some,
    fills stack room, closed]

theorem reads_table {depth : Nat} {inner : String} {entries : List (Value × Value)}
    (fills : ∀ stack : List Frame, stack.length + (depth + 1) ≤ State.depthLimit →
      Fills (fun entries => .table entries :: stack) .keyOrClose '\x7d' .closeTable inner entries) :
    Reads (depth + 1) ("\x7b" ++ inner ++ "\x7d") (.table entries) := by
  intro stack expected rest takes room delimited
  have opens : Token.advance? '\x7b' .between = some ([.openTable], .between) := rfl
  have closed : State.step? ⟨.table entries.reverse :: stack, .commaOrClose⟩ .closeTable =
      State.complete? (.table entries) stack := by
    simp only [State.step?, State.close?, List.reverse_reverse]
    rw [sealed_eq (by omega)]
  have characters : ("\x7b" ++ inner ++ "\x7d").toList ++ rest =
      '\x7b' :: (inner.toList ++ '\x7d' :: rest) := by
    simp
  rw [characters, run_token opens, step?_begin takes (by simp), State.begin?, Option.bind_some,
    fills stack room, closed]

/-- An item is a part of any list that leaves room for it. -/
theorem Reads.joins {depth : Nat} {text : String} {value : Value} (reads : Reads depth text value)
    {outer : List Frame} (room : outer.length + (depth + 1) ≤ State.depthLimit) :
    Joins (fun items => .list items :: outer) Expected.TakesValue text value := by
  intro taken expected rest takes delimited
  exact reads takes (by rw [List.length_cons]; omega) delimited

theorem reads_listText {depth : Nat} {texts : List String} {values : List Value}
    (reads : List.Forall₂ (Reads depth) texts values) :
    Reads (depth + 1) (listText texts) (.list values) := by
  apply reads_list
  intro stack room
  have joins : List.Forall₂
      (Joins (fun items => .list items :: stack) Expected.TakesValue) texts values := by
    refine reads.imp ?_
    intro text value read
    exact read.joins room
  exact (open_list stack).run_separated joins

/-- The reader takes the text as a string literal, whatever follows. -/
def TakenAs (text : String) (value : Value) : Prop :=
  ∀ (rest : List Char) (state : State), run .between (text.toList ++ rest) state =
    (state.step? (.string value)).bind fun reached => run .between rest reached

/-- A member is read in three steps: its key, the colon, and its value. -/
theorem joins_member {depth : Nat} {keyText text : String} {key value : Value}
    (taken : TakenAs keyText key) (reads : Reads depth text value) {outer : List Frame}
    (room : outer.length + (depth + 1) ≤ State.depthLimit) :
    Joins (fun entries => .table entries :: outer) Expected.TakesKey (keyText ++ ":" ++ text)
      (key, value) := by
  intro entries expected rest takes delimited
  have colon : Token.advance? ':' .between = some ([.colon], .between) := rfl
  have keyed : State.step? ⟨.table entries :: outer, expected⟩ (.string key) =
      some ⟨.table entries :: outer, .colon key⟩ := by
    rcases takes with rfl | rfl <;> rfl
  have waits : State.step? ⟨.table entries :: outer, .colon key⟩ .colon =
      some ⟨.entry entries key :: outer, .value⟩ := rfl
  have characters : (keyText ++ ":" ++ text).toList ++ rest =
      keyText.toList ++ (':' :: (text.toList ++ rest)) := by
    simp
  rw [characters, taken, keyed, Option.bind_some, run_token colon, waits, Option.bind_some,
    reads (.inl rfl) (by rw [List.length_cons]; omega) delimited]
  rfl

/-- A table of members by name, as a value. -/
def namedTable (members : List (String × Value)) : Value :=
  .table (members.map fun member => (.string member.1, member.2))

theorem reads_tableText {depth : Nat} {texts : List (String × String)}
    {members : List (String × Value)}
    (reads : List.Forall₂ (fun text member => text.1 = member.1 ∧ Reads depth text.2 member.2)
      texts members) :
    Reads (depth + 1) (tableText texts) (namedTable members) := by
  apply reads_table
  intro stack room
  have joins : List.Forall₂
      (Joins (fun entries => .table entries :: stack) Expected.TakesKey)
      (texts.map memberText) (members.map fun member => (.string member.1, member.2)) := by
    rw [List.forall₂_map_left_iff, List.forall₂_map_right_iff]
    refine reads.imp ?_
    rintro ⟨name, text⟩ ⟨_, value⟩ ⟨rfl, read⟩
    exact joins_member (run_encode name) read room
  exact (open_table stack).run_separated joins

end Json

end ScopedSchema
