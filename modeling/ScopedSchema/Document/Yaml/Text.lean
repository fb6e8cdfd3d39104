/-!
Characters of a YAML text and places in it. All line breaks but the two separators of Unicode are
read as line feeds before anything else looks at the text. Columns count characters; what limits the
length of a key counts bytes.
-/

namespace ScopedSchema

namespace Yaml

def byteOrderMark : Char := '\ufeff'

def lineSeparator : Char := '\u2028'

def paragraphSeparator : Char := '\u2029'

def isAllowed (character : Char) : Bool :=
  let code := character.toNat
  code = 9 || code = 10 || code = 13 || (32 ≤ code && code ≤ 126) || code = 0x85 ||
    (0xA0 ≤ code && code ≤ 0xFFFD) || 0x10000 ≤ code

def isBreak (character : Char) : Bool :=
  character = '\n' || character = lineSeparator || character = paragraphSeparator

def isBlank (character : Char) : Bool := character = ' ' || character = '\t'

/-- The characters of names of anchors, tag handles and directives. -/
def isNamePart (character : Char) : Bool :=
  character.isAlphanum || character = '_' || character = '-'

/-- Nothing but blanks, a line break or the end of the text may follow here. -/
def atGap : List Char → Bool
  | [] => true
  | character :: _ => isBlank character || isBreak character

/-- A marker that begins or ends a document, if it stands at the start of a line. -/
def atDocumentMarker (text : List Char) : Bool :=
  (text.take 3 == "---".toList || text.take 3 == "...".toList) && atGap (text.drop 3)

def normalizeBreaks : List Char → List Char
  | '\r' :: '\n' :: rest => '\n' :: normalizeBreaks rest
  | '\r' :: rest => '\n' :: normalizeBreaks rest
  | '\u0085' :: rest => '\n' :: normalizeBreaks rest
  | character :: rest => character :: normalizeBreaks rest
  | [] => []

/-- The text as the lexer reads it, unless it holds a control character. -/
def prepare? (text : String) : Option (List Char) :=
  if text.toList.all isAllowed then some (normalizeBreaks text.toList) else none

structure Position where
  line : Nat := 0
  column : Nat := 0
  /-- The bytes in front of it on its line. -/
  offset : Nat := 0

namespace Position

/-- The position behind a character of the same line. -/
def next (position : Position) (character : Char) : Position :=
  ⟨position.line, position.column + 1, position.offset + character.utf8Size⟩

def nextLine (position : Position) : Position := ⟨position.line + 1, 0, 0⟩

end Position

/-- A position in a text, with the text from there on. -/
structure Cursor extends Position where
  rest : List Char

namespace Cursor

/-- Passes characters of the current line. -/
def advance (cursor : Cursor) (count : Nat) : Cursor :=
  ⟨(cursor.rest.take count).foldl Position.next cursor.toPosition, cursor.rest.drop count⟩

def nextLine (cursor : Cursor) : Cursor := ⟨cursor.toPosition.nextLine, cursor.rest.tail⟩

/-- Passes the characters that satisfy a test and returns them. -/
def takeWhile (cursor : Cursor) (test : Char → Bool) : List Char × Cursor :=
  let taken := cursor.rest.takeWhile test
  (taken, cursor.advance taken.length)

def dropWhile (cursor : Cursor) (test : Char → Bool) : Cursor := (cursor.takeWhile test).2

def next? (cursor : Cursor) : Option Char := cursor.rest.head?

/-- Passes blanks and a comment up to the end of the line, and the line break behind them. -/
def endLine? (cursor : Cursor) : Option Cursor :=
  let blank := cursor.dropWhile isBlank
  let ended := if blank.next? = some '#' then blank.dropWhile fun character => !isBreak character
    else blank
  match ended.rest with
  | [] => some ended
  | character :: _ => if isBreak character then some ended.nextLine else none

end Cursor

end Yaml

end ScopedSchema
