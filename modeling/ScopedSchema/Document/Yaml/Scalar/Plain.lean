import ScopedSchema.Document.Yaml.Gap

/-!
Plain scalars: words without quotes. In block context a line that is not indented ends them; in flow
context punctuation does.
-/

namespace ScopedSchema

namespace Yaml

namespace Plain

def isFlowPunctuation (character : Char) : Bool :=
  [',', '[', ']', '\x7b', '\x7d'].contains character

/-- What follows a gap does not belong to the scalar any more. -/
def endsAfterGap (inFlow : Bool) (indent : Int) (column : Nat) (text : List Char) : Bool :=
  (!inFlow && decide ((column : Int) < indent)) || text.head? == some '#' ||
    (column == 0 && atDocumentMarker text)

def endsAt (inFlow : Bool) (character : Char) (rest : List Char) : Bool :=
  (character = ':' && atGap rest) || (inFlow && isFlowPunctuation character)

/-- In flow context a colon must not stand directly before punctuation. -/
def isMisplacedColon (inFlow : Bool) (character : Char) (rest : List Char) : Bool :=
  inFlow && character = ':' &&
    rest.head?.any fun next => next = '?' || isFlowPunctuation next

def finish (text : List Char) (gap : Gap) (cursor : Cursor) : Scanned :=
  ⟨String.ofList text.reverse, cursor, gap.crossesLine⟩

/-- Characters read so far are given last first. -/
def scan? (inFlow : Bool) (indent : Int) (text : List Char) (gap : Gap) (position : Position) :
    List Char → Option Scanned
  | [] => some (finish text gap ⟨position, []⟩)
  | character :: rest =>
    if isBreak character then
      scan? inFlow indent text (gap.addBreak character) position.nextLine rest
    else if isBlank character then
      if gap.crossesLine && character = '\t' && decide ((position.column : Int) < indent) then none
      else scan? inFlow indent text (gap.addBlank character) (position.next character) rest
    else if !gap.isNone && endsAfterGap inFlow indent position.column (character :: rest) then
      some (finish text gap ⟨position, character :: rest⟩)
    else if isMisplacedColon inFlow character rest then none
    else if endsAt inFlow character rest then
      some (finish text gap ⟨position, character :: rest⟩)
    else
      scan? inFlow indent (character :: (gap.text.reverse ++ text)) .none (position.next character)
        rest

end Plain

end Yaml

end ScopedSchema
