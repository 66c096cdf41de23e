import SourceAtlas.CompilerOptions
import SourceAtlas.Disk.Walk
import SourceAtlas.Settings

/-! Which files are the sources of a project: those that match a source pattern and no exclusion, and,
if the compiler options list patterns to include, one of these. -/
namespace SourceAtlas

/-- The patterns to choose by. `included` is absent if nothing is required to be included. -/
structure SourceFilter where
  sources : List Glob.Pattern
  excluded : List Glob.Pattern
  compilerExcluded : List Glob.Pattern
  included : Option (List Glob.Pattern)
  excludedFolders : List String
  deriving Repr

namespace SourceFilter

/-- The further source patterns of a project with JavaScript files. -/
def javaScriptGlobs : List String := ["**/*.js", "**/*.jsx", "**/*.mjs", "**/*.cjs"]

/-- Removes every leading step to the same folder. -/
def dropHere : List Char → List Char
  | '.' :: '/' :: rest => dropHere rest
  | text => text

/-- A pattern that ends in a folder name stands for all that lies below the folder. -/
def expandFolder (pattern : String) : String :=
  let trimmed := ((dropHere pattern.toList).reverse.dropWhile (· == '/')).reverse
  let last := (trimmed.reverse.takeWhile (· != '/')).reverse
  if trimmed.contains '*' || last.contains '.' then String.ofList trimmed
  else String.ofList (trimmed ++ ['/', '*', '*'])

/-- Reads patterns of compiler options, in which a star stays within one part of a path. -/
def compilerPatterns (patterns : List String) : Except Glob.SetFault (List Glob.Pattern) :=
  Glob.readSet true (patterns.map expandFolder)

/-- The patterns to include are read first, then the sources, then the exclusions. -/
def new (settings : Settings) (options : CompilerOptions) : Except Fault SourceFilter :=
  Except.mapError Fault.glob do
    let included ←
      if options.includePatterns.isEmpty then pure none
      else some <$> compilerPatterns options.includePatterns
    let further := if options.allowJavaScript then javaScriptGlobs else []
    let sources ← Glob.readSet false (settings.sourceGlobs ++ further)
    let excluded ← Glob.readSet false settings.exclusions
    let compilerExcluded ← compilerPatterns options.excludePatterns
    return ⟨sources, excluded, compilerExcluded, included, settings.excludedFolders⟩

def isSource (filter : SourceFilter) (relative : Path) : Bool :=
  let key := relative.key
  Glob.anyMatch filter.sources key && !Glob.anyMatch filter.excluded key &&
    !Glob.anyMatch filter.compilerExcluded key &&
    (match filter.included with
    | none => true
    | some included => Glob.anyMatch included key)

/-- Whether folders of a name are searched. Hidden ones are not. -/
def enters (filter : SourceFilter) (name : String) : Bool :=
  name.toList.head? != some '.' && !filter.excludedFolders.contains name

/-- The source files below a root, in the order of their paths. -/
def collect (filter : SourceFilter) (disk : Disk) (root : Path) : Except Fault (List Path) := do
  let files ← (disk.walk filter.enters root).mapError .walk
  let sources := files.filter fun file =>
    match root.below? file with
    | some relative => filter.isSource relative
    | none => false
  return sources.mergeSort Path.le

end SourceFilter

end SourceAtlas
