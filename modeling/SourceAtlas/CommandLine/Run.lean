import SourceAtlas.Atlas.Json
import SourceAtlas.CommandLine.Arguments
import SourceAtlas.Disk.Write
import SourceAtlas.Report
import SourceAtlas.Settings.Yaml
import SourceAtlas.Survey

/-! What the commands do, as changes of a disk and texts to print. -/
namespace SourceAtlas.CommandLine

/-- How a command ends: with a code, or with a failure that its caller reports. -/
inductive Exit
  | code (value : Nat)
  | failed (message : String)
  deriving DecidableEq, Repr

structure Outcome where
  exit : Exit
  out : String
  err : String
  disk : Disk
  deriving Repr

namespace Outcome

def refused (disk : Disk) (lines : List String) : Outcome :=
  ⟨.code 2, "", String.join (lines.map (· ++ "\n")), disk⟩

def failed (disk : Disk) (fault : Disk.Fault) : Outcome := ⟨.failed fault.message, "", "", disk⟩

end Outcome

/-- Makes the folder around a file, if its path names one. -/
def makeParent (disk : Disk) (path : Path) : Except Disk.Fault Disk :=
  match path.parent? with
  | none => .ok disk
  | some parent => if parent.text = "" then .ok disk else disk.makeFolders parent

def save (disk : Disk) (path : Path) (text : String) : Except Disk.Fault Disk := do
  let disk ← makeParent disk path
  disk.write path (Utf8.encode (text ++ "\n").toList)

/-- Prints an atlas, or writes it to a file and prints a summary. -/
def deliver (disk : Disk) (colored : Bool) (arguments : MapArguments) (atlas : Atlas) : Outcome :=
  let text := atlas.render (!arguments.compact)
  match arguments.output with
  | none => ⟨.code 0, text ++ "\n", "", disk⟩
  | some path =>
    match save disk path text with
    | .error fault => .failed disk fault
    | .ok disk => ⟨.code 0, "", Report.summary colored atlas path, disk⟩

def runMap (parse : Parser) (colored : Bool) (disk : Disk) (arguments : MapArguments) : Outcome :=
  match Settings.load disk arguments.start arguments.settings with
  | .error fault =>
    .refused disk
      ["Error: " ++ fault.message, "Run \x27codemap init\x27 to create a config file"]
  | .ok settings =>
    match survey parse disk settings arguments.start with
    | .error fault => .refused disk ["Error: " ++ fault.message]
    | .ok atlas => deliver disk colored arguments atlas

/-- The parent of the working directory's own entries needs no making. -/
def makeParentUnlessHere (disk : Disk) (path : Path) : Except Disk.Fault Disk :=
  if path.parent?.any fun parent => parent.same ⟨"."⟩ then .ok disk else makeParent disk path

def created (path : Path) : String :=
  String.join ["Created ", path.text, "\n\nNext steps:\n  1. Edit ", path.text,
    " to customize for your project\n  2. Run: codemap map . (auto-discovers ",
    ", ".intercalate Settings.fileNames, ")\n"]

def runInit (disk : Disk) (arguments : InitArguments) : Outcome :=
  let path := arguments.output
  if disk.exists? path then
    .refused disk ["Error: file already exists: " ++ path.text,
      "Remove it or use --output to specify a different path"]
  else
    match makeParentUnlessHere disk path with
    | .error fault => .refused disk ["Error: failed to create directory: " ++ fault.message]
    | .ok disk =>
      match disk.write path (Utf8.encode Settings.default.toYaml.toList) with
      | .error fault => .refused disk ["Error: failed to write config: " ++ fault.message]
      | .ok disk => ⟨.code 0, created path, "", disk⟩

def run (parse : Parser) (colored : Bool) (disk : Disk) : Command → Outcome
  | .map arguments => runMap parse colored disk arguments
  | .init arguments => runInit disk arguments

end SourceAtlas.CommandLine
