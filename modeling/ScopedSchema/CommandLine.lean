import ScopedSchema.Generation
import ScopedSchema.Inspection

/-!
The command line. Arguments are taken one by one. An option with a value takes it from the same
argument, behind an equals sign, or from the next one, which must not look like an option.
-/

namespace ScopedSchema

inductive Command where
  | generate (options : GenerateOptions)
  | inspect (manifest : FilePath)

inductive Invocation where
  | command (command : Command)
  | version
  | help
  | misuse

namespace CommandLine

inductive Argument where
  | word
  | separator
  | long (name : String) (value : Option String)
  | short (letters : List Char)

namespace Argument

/-- Cuts at the first equals sign. -/
def splitEquals (text : List Char) : String × Option String :=
  let name := text.takeWhile fun character => character != '='
  (String.ofList name,
    if name.length < text.length then some (String.ofList (text.drop (name.length + 1)))
    else none)

/-- A dash alone is a word. -/
def ofText (text : String) : Argument :=
  match text.toList with
  | ['-', '-'] => separator
  | '-' :: '-' :: rest =>
    let (name, value) := splitEquals rest
    long name value
  | '-' :: first :: rest => short (first :: rest)
  | _ => word

end Argument

inductive ValueOption where
  | model | path | outputDirectory
  deriving DecidableEq

def ValueOption.ofName? (name : String) : Option ValueOption :=
  if name = "model" then some .model
  else if name = "path" then some .path
  else if name = "output-dir" then some .outputDirectory
  else none

/-- The command whose arguments are being taken. -/
inductive Stage where
  | root
  | generate
  | inspect
  | help (topic : Bool)
  deriving DecidableEq

structure Arguments where
  stage : Stage := .root
  /-- An option that waits for its value. -/
  pending : Option ValueOption := none
  /-- Nothing is an option any more. -/
  wordsOnly : Bool := false
  manifest : Option String := none
  model : Option String := none
  paths : List String := []
  outputDirectory : Option String := none
  check : Bool := false
  print : Bool := false

/-- An invocation that is settled before all arguments are taken. -/
abbrev Step := Except Invocation Arguments

namespace Arguments

def takeTopic (arguments : Arguments) (text : String) : Step :=
  if arguments.stage = .help false ∧ ["generate", "inspect", "help"].contains text then
    .ok { arguments with stage := .help true }
  else .error .misuse

def takeManifest (arguments : Arguments) (text : String) : Step :=
  if arguments.manifest.isNone && !text.isEmpty then
    .ok { arguments with manifest := some text }
  else .error .misuse

def takeCommand (arguments : Arguments) (text : String) : Step :=
  if text = "generate" then .ok { arguments with stage := .generate }
  else if text = "inspect" then .ok { arguments with stage := .inspect }
  else if text = "help" then .ok { arguments with stage := .help false }
  else .error .misuse

def takeWord (arguments : Arguments) (text : String) : Step :=
  match arguments.stage with
  | .root => arguments.takeCommand text
  | .help _ => arguments.takeTopic text
  | _ => arguments.takeManifest text

/-- Only paths may be given more than once, and only a directory must not be empty. -/
def takeValue (arguments : Arguments) (text : String) : ValueOption → Step
  | .model =>
    if arguments.model.isNone then .ok { arguments with pending := none, model := some text }
    else .error .misuse
  | .path => .ok { arguments with pending := none, paths := arguments.paths ++ [text] }
  | .outputDirectory =>
    if arguments.outputDirectory.isNone && !text.isEmpty then
      .ok { arguments with pending := none, outputDirectory := some text }
    else .error .misuse

def takeGenerateOption (arguments : Arguments) (name : String) (value : Option String) : Step :=
  match ValueOption.ofName? name, value with
  | some option, some text => arguments.takeValue text option
  | some option, none => .ok { arguments with pending := some option }
  | none, some _ => .error .misuse
  | none, none =>
    if name = "check" ∧ !arguments.check then .ok { arguments with check := true }
    else if name = "stdout" ∧ !arguments.print then .ok { arguments with print := true }
    else .error .misuse

def takeLong (arguments : Arguments) (name : String) (value : Option String) : Step :=
  match arguments.stage with
  | .help _ => .error .misuse
  | stage =>
    if value.isNone ∧ name = "verbose" then .ok arguments
    else if value.isNone ∧ name = "help" then .error .help
    else if value.isNone ∧ name = "version" ∧ stage = .root then .error .version
    else if stage = .generate then arguments.takeGenerateOption name value
    else .error .misuse

def takeShort (arguments : Arguments) : List Char → Step
  | [] => .ok arguments
  | letter :: rest =>
    match arguments.stage with
    | .help _ => .error .misuse
    | stage =>
      if letter = 'v' then arguments.takeShort rest
      else if letter = 'h' then .error .help
      else if letter = 'V' ∧ stage = .root then .error .version
      else .error .misuse

def takeSeparator (arguments : Arguments) : Step :=
  if arguments.stage = .generate ∨ arguments.stage = .inspect then
    .ok { arguments with wordsOnly := true }
  else .error .misuse

def take (arguments : Arguments) (text : String) : Step :=
  if arguments.wordsOnly then arguments.takeWord text
  else
    match arguments.pending, Argument.ofText text with
    | some option, .word => arguments.takeValue text option
    | some _, _ => .error .misuse
    | none, .word => arguments.takeWord text
    | none, .separator => arguments.takeSeparator
    | none, .long name value => arguments.takeLong name value
    | none, .short letters => arguments.takeShort letters

def generateOptions (arguments : Arguments) (manifest : String) : GenerateOptions where
  manifest := ⟨manifest⟩
  model := arguments.model
  paths := arguments.paths
  outputDirectory := arguments.outputDirectory.map FilePath.mk
  mode := if arguments.check then .check else if arguments.print then .print else .write

def invocation (arguments : Arguments) : Invocation :=
  match arguments.stage, arguments.manifest with
  | .help _, _ => .help
  | .generate, some manifest =>
    if arguments.pending.isSome ∨ (arguments.check ∧ arguments.print) then .misuse
    else .command (.generate (arguments.generateOptions manifest))
  | .inspect, some manifest => .command (.inspect ⟨manifest⟩)
  | _, _ => .misuse

end Arguments

def parse (texts : List String) : Invocation :=
  match texts.foldlM Arguments.take {} with
  | .ok arguments => arguments.invocation
  | .error invocation => invocation

def usage : String :=
  "Usage: zscope [-v] <command>\n\nCommands:\n" ++
    "  generate <manifest> [--model <model>] [--path <path>]... [--output-dir <directory>]\n" ++
    "                      [--check | --stdout]\n" ++
    "  inspect <manifest>\n"

end CommandLine

def Command.run {m : Type → Type} [Monad m] [FileAccess m] : Command → m Report
  | .generate options => ScopedSchema.generate options
  | .inspect manifest => ScopedSchema.inspect manifest

def Invocation.run {m : Type → Type} [Monad m] [FileAccess m] : Invocation → m Report
  | .command chosen => chosen.run
  | .version => pure { output := "zscope 0.1.0\n" }
  | .help => pure { output := CommandLine.usage }
  | .misuse => pure { code := 2 }

end ScopedSchema
