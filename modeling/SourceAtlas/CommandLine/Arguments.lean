import SourceAtlas.Path

/-! The arguments of the command line. Arguments are read from left to right, and the first that is not
understood is reported; the value of an option is judged only when the next argument is taken. -/
namespace SourceAtlas.CommandLine

/-- Why arguments are not carried out. Asking for help or for the version is one of the reasons. -/
inductive UsageFault
  | unknownArgument
  | invalidSubcommand
  | invalidValue
  | tooManyValues
  | argumentConflict
  | missingSubcommand
  | nothingGiven
  | helpAsked
  | versionAsked
  deriving DecidableEq, Repr

structure MapArguments where
  start : Path
  settings : Option Path
  output : Option Path
  compact : Bool
  deriving DecidableEq, Repr

structure InitArguments where
  output : Path
  deriving DecidableEq, Repr

inductive Command
  | map (arguments : MapArguments)
  | init (arguments : InitArguments)
  deriving DecidableEq, Repr

structure Invocation where
  verbose : Bool
  command : Command
  deriving DecidableEq, Repr

inductive Argument
  | verbose
  | help
  | version
  | config
  | output
  | compact
  deriving DecidableEq, Repr

namespace Argument

def longName : Argument → String
  | verbose => "verbose"
  | help => "help"
  | version => "version"
  | config => "config"
  | output => "output"
  | compact => "compact"

def letter? : Argument → Option Char
  | verbose => some 'v'
  | help => some 'h'
  | version => some 'V'
  | config => some 'c'
  | output => some 'o'
  | compact => none

def takesValue (argument : Argument) : Bool := argument == config || argument == output

end Argument

/-- What a command understands: named arguments, maybe a path, and the names of commands below it. -/
structure Level where
  arguments : List Argument
  takesPath : Bool
  subcommands : List String

namespace Level

def top : Level := ⟨[.verbose, .help, .version], false, ["map", "init", "help"]⟩

def map : Level := ⟨[.config, .output, .compact, .verbose, .help], true, []⟩

def init : Level := ⟨[.output, .verbose, .help], false, []⟩

end Level

/-- A value that is not judged yet: that of an option, which may still be missing, or a path. -/
inductive Pending
  | option (argument : Argument) (value : Option String)
  | path (value : String)

structure Reading where
  given : List (Argument × String)
  path : Option String
  pending : Option Pending

namespace Reading

def new : Reading := ⟨[], none, none⟩

def value? (reading : Reading) (argument : Argument) : Option String := reading.given.lookup argument

def has (reading : Reading) (argument : Argument) : Bool := (reading.value? argument).isSome

/-- Records an argument, which may be given once. -/
def record (reading : Reading) (argument : Argument) (value : String) : Except UsageFault Reading :=
  if reading.has argument then .error .argumentConflict
  else if argument.takesValue && value == "" then .error .invalidValue
  else .ok { reading with given := (argument, value) :: reading.given }

def settle (reading : Reading) : Except UsageFault Reading :=
  let settled := { reading with pending := none }
  match reading.pending with
  | none => .ok reading
  | some (.option _ none) => .error .invalidValue
  | some (.option argument (some value)) => settled.record argument value
  | some (.path value) =>
    if value = "" then .error .invalidValue else .ok { settled with path := some value }

def awaiting? (reading : Reading) : Option Argument :=
  match reading.pending with
  | some (.option argument none) => some argument
  | _ => none

def hasPath (reading : Reading) : Bool :=
  match reading.pending with
  | some (.path _) => true
  | _ => reading.path.isSome

/-- Takes an argument without a value. -/
def takeSwitch (reading : Reading) (argument : Argument) : Except UsageFault Reading := do
  let reading ← reading.settle
  match argument with
  | .help => throw .helpAsked
  | .version => throw .versionAsked
  | argument => reading.record argument ""

/-- Takes an option with its value, or without one that is still to come. -/
def takeOption (reading : Reading) (argument : Argument) (value : Option String) :
    Except UsageFault Reading := do
  let reading ← reading.settle
  match value with
  | some value => reading.record argument value
  | none => return { reading with pending := some (.option argument none) }

/-- Takes an argument with a long name, with what follows an equals sign. -/
def takeLong (reading : Reading) (level : Level) (name : String) (value : Option String) :
    Except UsageFault Reading :=
  match level.arguments.find? (·.longName == name) with
  | none => .error .unknownArgument
  | some argument =>
    if argument.takesValue then reading.takeOption argument value
    else if value.isSome then .error .tooManyValues
    else reading.takeSwitch argument

/-- The value that follows the letter of an option directly; an equals sign may stand between. -/
def attached : List Char → Option String
  | [] => none
  | '=' :: value => some (String.ofList value)
  | value => some (String.ofList value)

/-- Takes a run of letters. The first option among them takes the rest of the run as its value. -/
def takeLetters (level : Level) (reading : Reading) : List Char → Except UsageFault Reading
  | [] => .ok reading
  | letter :: rest =>
    match level.arguments.find? (·.letter? == some letter) with
    | none => .error .unknownArgument
    | some argument =>
      if argument.takesValue then reading.takeOption argument (attached rest)
      else do takeLetters level (← reading.takeSwitch argument) rest

/-- Takes a path. A command that has subcommands takes none, and names after `--` are no subcommands. -/
def takePath (reading : Reading) (level : Level) (trailing : Bool) (text : String) :
    Except UsageFault Reading :=
  if level.takesPath && !reading.hasPath then do
    return { ← reading.settle with pending := some (.path text) }
  else if level.subcommands.isEmpty || (trailing && level.subcommands.contains text) then
    .error .unknownArgument
  else .error .invalidSubcommand

/-- Takes a text that names no argument: the value of an option, or a path. -/
def takePlain (reading : Reading) (level : Level) (text : String) : Except UsageFault Reading :=
  match reading.awaiting? with
  | some argument => .ok { reading with pending := some (.option argument (some text)) }
  | none => reading.takePath level false text

end Reading

inductive Form
  | separator
  | long (name : String) (value : Option String)
  | letters (letters : List Char)
  | plain

/-- A single dash is a plain text. -/
def formOf (text : String) : Form :=
  match text.toList with
  | ['-', '-'] => .separator
  | '-' :: '-' :: rest =>
    let name := rest.takeWhile (· != '=')
    let value := (rest.drop name.length).drop 1
    .long (String.ofList name)
      (if name.length < rest.length then some (String.ofList value) else none)
  | ['-'] => .plain
  | '-' :: letters => .letters letters
  | _ => .plain

/-- The subcommand at which a level ends, with the texts after it. -/
abbrev Rest := Option (String × List String)

def readLevel (level : Level) (reading : Reading) : List String → Except UsageFault (Reading × Rest)
  | [] => do return (← reading.settle, none)
  | text :: rest =>
    if level.subcommands.contains text then .ok (reading, some (text, rest))
    else
      match formOf text with
      | .separator => do
        let reading ← rest.foldlM (fun reading text => reading.takePath level true text) reading
        return (← reading.settle, none)
      | .long name value => do readLevel level (← reading.takeLong level name value) rest
      | .letters letters => do readLevel level (← reading.takeLetters level letters) rest
      | .plain => do readLevel level (← reading.takePlain level text) rest

/-- Help is given on all commands, or on one. -/
def helpOn (names : List String) : UsageFault :=
  match names with
  | [] => .helpAsked
  | [name] => if Level.top.subcommands.contains name then .helpAsked else .invalidSubcommand
  | _ => .invalidSubcommand

def mapCommand (reading : Reading) : Command :=
  .map {
    start := ⟨reading.path.getD "."⟩
    settings := (reading.value? .config).map Path.mk
    output := (reading.value? .output).map Path.mk
    compact := reading.has .compact }

def initCommand (reading : Reading) : Command :=
  .init ⟨⟨(reading.value? .output).getD "codemap.yaml"⟩⟩

def parse (texts : List String) : Except UsageFault Invocation := do
  let (top, rest) ← readLevel .top .new texts
  match rest with
  | none => throw (if top.given.isEmpty then .nothingGiven else .missingSubcommand)
  | some ("map", rest) =>
    let (reading, _) ← readLevel .map .new rest
    return ⟨top.has .verbose || reading.has .verbose, mapCommand reading⟩
  | some ("init", rest) =>
    let (reading, _) ← readLevel .init .new rest
    return ⟨top.has .verbose || reading.has .verbose, initCommand reading⟩
  | some (_, rest) => throw (helpOn rest)

end SourceAtlas.CommandLine
