import SourceAtlas.Atlas
import SourceAtlas.Record.Json

/-! The JSON form of an atlas: its projects by name, and the files of each by path. -/
namespace SourceAtlas

open Json (Draft Slot Result)

def Table.toJson {α : Type} (table : Table α) (write : α → Json) : Json :=
  .object (table.entries.map fun entry => (entry.1, write entry.2))

def Project.toJson (project : Project) : Json :=
  .object [("modules", project.modules.toJson ModuleRecord.toJson)]

def Project.slots : List (Slot Project) := [
  .of "modules" true (Draft.asTable ModuleRecord.ofDraft) fun _ modules => ⟨modules⟩]

def Project.ofDraft : Draft → Result Project := Draft.asRecord slots ⟨.empty⟩

namespace Atlas

def toJson (atlas : Atlas) : Json := atlas.projects.toJson Project.toJson

def ofDraft (draft : Draft) : Result Atlas := do
  return ⟨← draft.asTable Project.ofDraft⟩

def ofText (text : String) : Result Atlas := (Json.Document.ofText text).read ofDraft

/-- Writes an atlas, on one line or with one item per line. -/
def render (atlas : Atlas) (spread : Bool) : String :=
  String.ofList (if spread then atlas.toJson.pretty 0 else atlas.toJson.compact)

end Atlas

end SourceAtlas
