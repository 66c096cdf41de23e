import SourceAtlas.Json.Decode
import SourceAtlas.Json.Value
import SourceAtlas.Settings

/-! The JSON form of settings. Missing fields have their default values. -/
namespace SourceAtlas.Settings

open Json (Draft Slot Result)

def textList : Draft → Result (List String) := Draft.asList Draft.asText

def slots : List (Slot Settings) := [
  .of "version" false Draft.asText fun settings version => { settings with version },
  .of "project_name" false (Draft.asOptional Draft.asText)
    fun settings projectName => { settings with projectName },
  .of "source_globs" false textList fun settings sourceGlobs => { settings with sourceGlobs },
  .of "excluded_paths" false textList fun settings excludedPaths => { settings with excludedPaths },
  .of "excluded_dirs" false textList
    fun settings excludedFolders => { settings with excludedFolders },
  .of "manifest_markers" false textList
    fun settings manifestMarkers => { settings with manifestMarkers },
  .of "include_test_files" false Draft.asBool
    fun settings includeTestFiles => { settings with includeTestFiles }]

def ofDraft : Draft → Result Settings := Draft.asRecord slots default

def toJson (settings : Settings) : Json :=
  .object ([("version", .text settings.version)] ++
    Json.optionalMember "project_name" settings.projectName ++ [
    ("source_globs", Json.ofTexts settings.sourceGlobs),
    ("excluded_paths", Json.ofTexts settings.excludedPaths),
    ("excluded_dirs", Json.ofTexts settings.excludedFolders),
    ("manifest_markers", Json.ofTexts settings.manifestMarkers),
    ("include_test_files", .bool settings.includeTestFiles)])

end SourceAtlas.Settings
