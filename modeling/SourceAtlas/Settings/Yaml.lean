import SourceAtlas.Settings
import SourceAtlas.Yaml.Implicit
import SourceAtlas.Yaml.Node
import SourceAtlas.Yaml.Writer

/-! The YAML form of settings, reading it and writing it. Missing fields have their default values, and
unknown ones are passed over; a field may not be given twice. -/
namespace SourceAtlas.Settings

open Yaml (Node Properties Style)

/-- The node that an alias means, and any other node itself. -/
def resolve? (root : Node) : Node → Option Node
  | .alias anchor => root.anchored? anchor
  | node => some node

/-- Every scalar is a text. -/
def textOf? (root node : Node) : Option String :=
  match resolve? root node with
  | some (.scalar _ _ text) => some text
  | _ => none

def boolTag : String := "tag:yaml.org,2002:bool"

def nullTag : String := "tag:yaml.org,2002:null"

/-- A truth value is plain, or literal with a tag for it. -/
def truthOf? (root node : Node) : Option Bool :=
  match resolve? root node with
  | some (.scalar properties style text) =>
    if style = .plain ∨ (style = .literal ∧ properties.tag = some boolTag) then
      Yaml.truthValue? text
    else none
  | _ => none

/-- A text that may be missing: it is if a plain scalar without a tag is empty or a null. -/
def optionalTextOf? (root node : Node) : Option (Option String) :=
  match resolve? root node with
  | some (.scalar properties .plain text) =>
    match properties.tag with
    | none => some (if text = "" ∨ Yaml.isNull text then none else some text)
    | some tag =>
      if tag = nullTag then if Yaml.isNull text then some none else none else some (some text)
  | some (.scalar _ _ text) => some (some text)
  | _ => none

/-- A list of texts; a missing one is empty. -/
def textsOf? (root node : Node) : Option (List String) :=
  match resolve? root node with
  | some (.sequence _ items) => items.mapM (textOf? root)
  | some (.scalar _ .plain "") => some []
  | _ => none

/-- Reads a field, if there is one of that name. -/
def readField? (settings : Settings) (root : Node) (key : String) (value : Node) :
    Option (Option Settings) :=
  match key with
  | "version" => some do return { settings with version := ← textOf? root value }
  | "project_name" => some do return { settings with projectName := ← optionalTextOf? root value }
  | "source_globs" => some do return { settings with sourceGlobs := ← textsOf? root value }
  | "excluded_paths" => some do return { settings with excludedPaths := ← textsOf? root value }
  | "excluded_dirs" => some do return { settings with excludedFolders := ← textsOf? root value }
  | "manifest_markers" => some do return { settings with manifestMarkers := ← textsOf? root value }
  | "include_test_files" => some do return { settings with includeTestFiles := ← truthOf? root value }
  | _ => none

/-- Reads members. `seen` are the names of the fields that have been read. -/
def readMembers? (root : Node) (settings : Settings) (seen : List String) :
    List (Node × Node) → Option Settings
  | [] => some settings
  | (key, value) :: members => do
    let key ← textOf? root key
    match readField? settings root key value with
    | none => readMembers? root settings seen members
    | some field =>
      if key ∈ seen then none else readMembers? root (← field) (key :: seen) members

def ofDocument? : Yaml.Document → Option Settings
  | .void => some default
  | .node root =>
    match resolve? root root with
    | some (.mapping _ members) => readMembers? root default [] members
    | some (.scalar _ .plain "") => some default
    | _ => none

def ofYaml? (text : String) : Option Settings := (Yaml.document? text.toList).bind ofDocument?

def toYaml (settings : Settings) : String :=
  String.ofList (Yaml.writeMember "version" (Yaml.writeText settings.version) ++
    (match settings.projectName with
    | none => []
    | some name => Yaml.writeMember "project_name" (Yaml.writeText name)) ++
    Yaml.writeList "source_globs" settings.sourceGlobs ++
    Yaml.writeList "excluded_paths" settings.excludedPaths ++
    Yaml.writeList "excluded_dirs" settings.excludedFolders ++
    Yaml.writeList "manifest_markers" settings.manifestMarkers ++
    Yaml.writeMember "include_test_files"
      (if settings.includeTestFiles then ['t', 'r', 'u', 'e'] else ['f', 'a', 'l', 's', 'e']))

/-- The names under which a file of settings is looked for, in order. -/
def fileNames : List String := ["codemap.yaml", ".codemap.yaml", "codemap.yml"]

def discover? (disk : Disk) (folder : Path) : Option Path :=
  (fileNames.map fun name => folder.join ⟨name⟩).find? disk.isFile

def read (disk : Disk) (path : Path) : Except Fault Settings :=
  Except.mapError (Fault.configuration path) do
    let text ← (disk.readText path).mapError .unreadable
    match ofYaml? text with
    | none => throw .notYaml
    | some settings =>
      settings.check.mapError .refused
      return settings

/-- Loads the given file, or the one in a folder, or the default settings. -/
def load (disk : Disk) (folder : Path) (given : Option Path) : Except Fault Settings :=
  match given.or (discover? disk folder) with
  | some path => read disk path
  | none => .ok default

end SourceAtlas.Settings
