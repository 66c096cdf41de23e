import SourceAtlas.Fault
import SourceAtlas.Json.Commented
import SourceAtlas.Json.Decode
import SourceAtlas.Json.Value

/-! The compiler options of a project, as far as they decide which files belong to it. -/
namespace SourceAtlas

open Json (Draft Slot Result)

/-- `include` and `exclude` hold glob patterns relative to the root of the project. An empty `include`
restricts nothing. -/
structure CompilerOptions where
  allowJavaScript : Bool
  includePatterns : List String
  excludePatterns : List String
  deriving DecidableEq, Repr

namespace CompilerOptions

def default : CompilerOptions := ⟨false, [], []⟩

def languageSlots : List (Slot Bool) := [.of "allowJs" false Draft.asBool fun _ allowed => allowed]

def slots : List (Slot CompilerOptions) := [
  .of "compilerOptions" false (Draft.asRecord languageSlots false)
    fun options allowJavaScript => { options with allowJavaScript },
  .of "include" false (Draft.asList Draft.asText)
    fun options includePatterns => { options with includePatterns },
  .of "exclude" false (Draft.asList Draft.asText)
    fun options excludePatterns => { options with excludePatterns }]

def ofDraft : Draft → Result CompilerOptions := Draft.asRecord slots default

def ofText (text : String) : Result CompilerOptions :=
  (Json.Document.ofTokens (Json.tokens (Json.plainForm text.toList))).read ofDraft

def toJson (options : CompilerOptions) : Json :=
  .object [("compilerOptions", .object [("allowJs", .bool options.allowJavaScript)]),
    ("include", Json.ofTexts options.includePatterns),
    ("exclude", Json.ofTexts options.excludePatterns)]

/-- The name of the file at the root of a project that holds its compiler options. -/
def fileName : String := "tsconfig.json"

/-- Loads the options of a project. Without the file they are the default ones. -/
def load (disk : Disk) (root : Path) : Except Fault CompilerOptions :=
  let path := root.join ⟨fileName⟩
  if disk.exists? path then
    match disk.readText path with
    | .error fault => .error (.configuration path (.unreadable fault))
    | .ok text => (ofText text).mapError fun fault => .configuration path (.notJson fault)
  else .ok default

end CompilerOptions

end SourceAtlas
