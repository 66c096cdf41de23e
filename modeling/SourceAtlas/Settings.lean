import SourceAtlas.Fault

/-! The settings of a project: which files belong to it, what it is called, and what marks its root. -/
namespace SourceAtlas

/-- Glob patterns are relative to the root of the project. `excludedFolders` are names. -/
structure Settings where
  version : String
  projectName : Option String
  sourceGlobs : List String
  excludedPaths : List String
  excludedFolders : List String
  manifestMarkers : List String
  includeTestFiles : Bool
  deriving DecidableEq, Repr

namespace Settings

def default : Settings where
  version := "1"
  projectName := none
  sourceGlobs := ["**/*.ts", "**/*.tsx", "**/*.mts", "**/*.cts"]
  excludedPaths := []
  excludedFolders := ["node_modules", "dist", "build", "out", "coverage"]
  manifestMarkers := ["package.json"]
  includeTestFiles := false

/-- Patterns of declaration files and generated files, which are never sources. -/
def alwaysExcluded : List String := ["**/*.d.ts", "**/*.d.mts", "**/*.d.cts", "**/*.generated.*"]

/-- Patterns of files that serve tests only. -/
def testPatterns : List String :=
  ["**/*.test.*", "**/*.spec.*", "**/*.mock.*", "**/*.mocks.*", "**/__mocks__/**", "**/__tests__/**"]

def exclusions (settings : Settings) : List String :=
  alwaysExcluded ++ (if settings.includeTestFiles then [] else testPatterns) ++
    settings.excludedPaths

/-- Checks that there are source patterns and markers, and that every pattern can be read. -/
def check (settings : Settings) : Except SettingsFault Unit :=
  if settings.sourceGlobs.isEmpty then .error .noSourceGlobs
  else if settings.manifestMarkers.isEmpty then .error .noManifestMarkers
  else
    match Glob.parseAll false (settings.sourceGlobs ++ settings.excludedPaths) with
    | .ok _ => .ok ()
    | .error fault => .error (.badGlob fault)

end Settings

end SourceAtlas
