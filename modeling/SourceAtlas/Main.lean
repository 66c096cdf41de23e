import SourceAtlas.CommandLine.Run

/-! The program: reads the disk around the paths that a command names, carries the command out, prints
what it says and writes its file. The syntax tree of a source is read from the file beside it that has
a further ending. -/
namespace SourceAtlas.Main

open CommandLine

def depthLimit : Nat := 64

def treeEnding : String := ".tree"

def matters (name : String) : Bool :=
  (Dialect.ofPath? ⟨name⟩).isSome ||
    [treeEnding, ".json", ".yaml", ".yml"].any fun ending => name.endsWith ending

/-- A target that no entry has. -/
def nowhere : String := "\x00"

def targetOf (entry : IO.FS.DirEntry) : IO String := do
  try
    discard entry.path.metadata
    return (← IO.FS.realPath entry.path).toString
  catch _ => return nowhere

/-- Reads what is at a path. Folders are read down to a depth, and what cannot be read is empty. -/
def readEntry (depth : Nat) (entry : IO.FS.DirEntry) : IO Disk.Entry := do
  let name := entry.fileName
  try
    match (← entry.path.symlinkMetadata).type with
    | .symlink => return .link name (← targetOf entry)
    | .dir =>
      match depth with
      | 0 => return .folder name []
      | depth + 1 => return .folder name (← (← entry.path.readDir).toList.mapM (readEntry depth))
    | _ =>
      if matters name then return .file name (← IO.FS.readBinFile entry.path).toList
      else return .file name []
  catch _ => return .file name []

/-- Reads the folder at a location down to a depth and puts it into a disk. -/
def readFolder (depth : Nat) (disk : Disk) (location : List String) : IO Disk := do
  match location.getLast? with
  | none =>
    let .folder _ entries ← readEntry depth ⟨"/", "."⟩ | return disk
    return { disk with root := .folder "" entries }
  | some name =>
    let around := location.dropLast
    let entry ← readEntry depth ⟨(Disk.pathOf around).text, name⟩
    return { disk with root := entry.putAt around disk.root }

/-- The locations of a path and its parents, outermost first. -/
def locationsTo (location : List String) : List (List String) :=
  (List.range (location.length + 1)).map location.take

def locationOf (here : List String) (path : Path) : List String :=
  ((Disk.pathOf here).join path).components.filterMap fun
    | .name text => some text
    | _ => none

def pathsOf : Command → List Path
  | .map arguments => arguments.start :: (arguments.settings.toList ++ arguments.output.toList)
  | .init arguments => [arguments.output]

/-- Reads the folders above the paths of a command, and the folders at these paths. -/
def readAround (here : List String) (command : Command) : IO Disk := do
  let targets := here :: (pathsOf command).map (locationOf here)
  let locations := (targets.flatMap locationsTo).eraseDups
  let ordered := locations.mergeSort fun a b => a.length ≤ b.length
  ordered.foldlM (readFolder 1) ⟨.folder "" [], here⟩

/-- Reads a whole project, once its root is known. -/
def readProject (disk : Disk) : Command → IO Disk
  | .init _ => return disk
  | .map arguments =>
    match Settings.load disk arguments.start arguments.settings with
    | .error _ => return disk
    | .ok settings =>
      let root := findRoot disk arguments.start settings.manifestMarkers
      match disk.resolve true root with
      | .ok found => readFolder depthLimit disk found.location
      | .error _ => return disk

/-- The sources among files with a file of their tree beside them. -/
def parsedTexts (entries : List Disk.Entry) : List ParsedText :=
  entries.filterMap fun
    | .file name bytes => do
      let dialect ← Dialect.ofPath? ⟨name⟩
      let .file _ listing ← entries.find? (·.name == name ++ treeEnding) | none
      let text ← Utf8.decode? listing
      return ⟨dialect, bytes, ← Syntax.Node.ofText? (String.ofList text)⟩
    | _ => none

def allParsedTexts : Disk.Entry → List ParsedText
  | .folder _ entries =>
    parsedTexts entries ++ (entries.attach.map fun entry => allParsedTexts entry.1).flatten
  | _ => []
decreasing_by
  have := List.sizeOf_lt_of_mem entry.2
  simp
  omega

def usage : String :=
  "Usage: codemap [--verbose] <COMMAND>\n\nCommands:\n" ++
    "  map [PATH] [--config FILE] [--output FILE] [--compact]\n  init [--output FILE]\n"

def reportUsage : UsageFault → IO UInt32
  | .helpAsked => do
    IO.print usage
    return 0
  | .versionAsked => do
    IO.println "codemap"
    return 0
  | _ => do
    IO.eprint usage
    return 2

/-- Writes the file of a command as it is on the disk that the command leaves. -/
def writeOutput (outcome : Outcome) (path : Path) : IO Unit := do
  let .ok bytes := outcome.disk.read path | return
  if let some parent := path.parent? then
    if parent.text ≠ "" then IO.FS.createDirAll parent.text
  IO.FS.writeBinFile path.text ⟨bytes.toArray⟩

def outputOf : Command → Option Path
  | .map arguments => arguments.output
  | .init arguments => some arguments.output

def perform (invocation : Invocation) : IO UInt32 := do
  let command := invocation.command
  let here := locationOf [] ⟨(← IO.currentDir).toString⟩
  let disk ← readProject (← readAround here command) command
  let outcome := run (.ofTexts (allParsedTexts disk.root)) false disk command
  IO.print outcome.out
  IO.eprint outcome.err
  match outcome.exit with
  | .code 0 =>
    (outputOf command).forM (writeOutput outcome)
    return 0
  | .code value => return UInt32.ofNat value
  | .failed message =>
    IO.eprintln ("Error: " ++ message)
    return 1

end SourceAtlas.Main

def main (arguments : List String) : IO UInt32 :=
  match SourceAtlas.CommandLine.parse arguments with
  | .error fault => SourceAtlas.Main.reportUsage fault
  | .ok invocation => SourceAtlas.Main.perform invocation
