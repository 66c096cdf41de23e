import SourceAtlas.Atlas
import SourceAtlas.Declaration.Extract
import SourceAtlas.Declaration.Imports
import SourceAtlas.SourceFilter
import SourceAtlas.Syntax.ParsedText

/-! Surveying a project: finding its root and its sources, and recording every source in an atlas. -/
namespace SourceAtlas

open Syntax

/-- The nearest folder, from a starting path upwards, that holds a file with the name of a marker; the
working directory if there is none. -/
def findRoot (disk : Disk) (start : Path) (markers : List String) : Path :=
  let absolute := disk.currentPath.join start
  let resolved := (disk.canonical? absolute).getD absolute
  let marked (folder : Path) : Bool := markers.any fun marker => disk.isFile (folder.join ⟨marker⟩)
  (resolved.ancestors.find? marked).getD disk.currentPath

/-- What an atlas is made from: the paths to record, a source text for each that can be had, and the
reader of these. -/
structure Provider where
  roots : List Path
  file? : Path → Option SourceFile
  reader : Reader

/-- The source texts that can be read, latest first. -/
def readSources (parse : Parser) (disk : Disk) (paths : List Path) : List SourceFile :=
  (paths.filterMap fun path =>
    match disk.read path with
    | .ok bytes => some ⟨path, bytes, parse (Dialect.ofPath path) bytes⟩
    | .error _ => none).reverse

namespace Provider

def ofDisk (parse : Parser) (disk : Disk) (paths : List Path) : Provider :=
  let files := readSources parse disk paths
  { roots := paths
    file? := fun path => files.find? fun file => file.path.same path
    reader := .syntactic }

def fileCount (provider : Provider) : Nat :=
  ((provider.roots.filter fun path => (provider.file? path).isSome).map (·.components)).eraseDups.length

/-- The key of a file: its path below the root, or its whole path if it is elsewhere. -/
def keyOf (root path : Path) : String := ((root.below? path).getD path).key

def record (provider : Provider) (root path : Path) : Except Fault ModuleRecord :=
  match provider.file? path with
  | none => .error (.missingSourceFile path)
  | some file => do
    let dependencies ← provider.reader.imports file
    provider.reader.moduleRecord file (keyOf root path) dependencies

/-- Records all root files, up to the first that cannot be recorded. -/
def assemble (provider : Provider) (root : Path) (projectName : String) : Except Fault Atlas := do
  let records ← provider.roots.mapM (provider.record root)
  return records.foldl (fun atlas record => (atlas.insert record).1) (.new projectName)

end Provider

/-- The name of a project is the configured one, or the name of the working directory. -/
def projectName (settings : Settings) (disk : Disk) : String :=
  settings.projectName.getD (disk.currentPath.fileName?.getD "root")

def survey (parse : Parser) (disk : Disk) (settings : Settings) (start : Path) :
    Except Fault Atlas := do
  let root := findRoot disk start settings.manifestMarkers
  let options ← CompilerOptions.load disk root
  let filter ← SourceFilter.new settings options
  let files ← filter.collect disk root
  (Provider.ofDisk parse disk files).assemble root (projectName settings disk)

end SourceAtlas
