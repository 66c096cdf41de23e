import SourceAtlas.Proofs.Insertion
import SourceAtlas.Proofs.RecordRoundTrip

/-! How many projects an atlas holds. The names of its projects are settled when it is made or read and
stay what they are, so an atlas that was read may hold none, and then insertions are lost, or several,
and then only the first of them is asked and filled. -/
namespace SourceAtlas

-- The records in the text of an atlas

namespace Json

def memberValues : Json → List Json
  | object members => members.map Prod.snd
  | _ => []

/-- The records in the JSON form of an atlas, project by project. -/
def writtenRecords (json : Json) : List Json :=
  json.memberValues.flatMap fun project => project.memberValues.flatMap memberValues

end Json

namespace Atlas

/-- The files of all projects but the first. -/
def otherRecords (atlas : Atlas) : List ModuleRecord :=
  atlas.projects.values.tail.flatMap fun project => project.modules.values

variable {atlas : Atlas}

theorem writtenRecords_toJson (atlas : Atlas) : atlas.toJson.writtenRecords =
    (atlas.modules.values ++ atlas.otherRecords).map ModuleRecord.toJson := by
  have inTable {α : Type} (table : Table α) (write : α → Json) :
      (table.toJson write).memberValues = table.values.map write := by
    simp [Table.toJson,Json.memberValues,Table.values]
  have inProject (project : Project) : project.toJson.memberValues.flatMap Json.memberValues =
      project.modules.values.map ModuleRecord.toJson := by
    change [project.modules.toJson ModuleRecord.toJson].flatMap Json.memberValues = _
    rw [List.flatMap_singleton,inTable]
  rw [Json.writtenRecords,toJson,inTable,List.flatMap_map]
  simp only [inProject]
  rw [otherRecords,modules,project?,Table.values]
  cases atlas.projects.entries with
  | nil => rfl
  | cons first others => simp [List.map_flatMap]

theorem otherRecords_of_single {name : String} (single : atlas.projects.keys = [name]) :
    atlas.otherRecords = [] := by
  obtain ⟨modules,rfl⟩ := eq_ofModules single
  rfl

-- One insertion

theorem insert_of_no_project (empty : atlas.projects.keys = []) (record : ModuleRecord) :
    atlas.insert record = (atlas,none) := by
  rw [insert,project?,List.map_eq_nil_iff.mp empty]
  rfl

/-- What an insertion into the first project changes: the files of that project and nothing else. -/
structure Inserted (atlas next : Atlas) (record : ModuleRecord) : Prop where
  keys : next.projects.keys = atlas.projects.keys
  modules : next.modules = atlas.modules.insert record.path record
  others : next.otherRecords = atlas.otherRecords

theorem insert_of_project (filled : atlas.projects.keys ≠ []) (record : ModuleRecord) :
    ∃ next, atlas.insert record = (next,atlas.module? record.path) ∧ Inserted atlas next record := by
  obtain ⟨⟨entries,order⟩⟩ := atlas
  cases entries with
  | nil => exact absurd rfl filled
  | cons first others =>
    have replaced (project : Project) : insertEntry first.1 project (first :: others) =
        (first.1,project) :: others := by
      rw [insertEntry,if_neg (String.lt_irrefl _),if_neg (String.lt_irrefl _)]
    refine ⟨_,rfl,?_,?_,?_⟩
    · simp [Table.keys,Table.insert,replaced]
    · simp [Atlas.modules,project?,Table.insert,replaced]
    · simp [otherRecords,Table.values,Table.insert,replaced]

-- All atlases that can be had

/-- An atlas that is new, or read from a text, or filled from there on, with the names of the projects
that it had when it was made. -/
inductive Reachable : List String → Atlas → Prop
  | new (name : String) : Reachable [name] (.new name)
  | read {text : String} {atlas : Atlas} (accepted : ofText text = .ok atlas) :
    Reachable atlas.projects.keys atlas
  | insert {names : List String} {atlas : Atlas} (record : ModuleRecord)
    (before : Reachable names atlas) : Reachable names (atlas.insert record).1

theorem Reachable.keys {names : List String} (reachable : Reachable names atlas) :
    atlas.projects.keys = names := by
  induction reachable with
  | new name => rfl
  | read accepted => rfl
  | @insert names atlas record _ ih =>
    by_cases empty : atlas.projects.keys = []
    · rw [insert_of_no_project empty]
      exact ih
    · obtain ⟨next,step,inserted⟩ := insert_of_project empty record
      rw [step]
      exact inserted.keys.trans ih

theorem ofText_compact (atlas : Atlas) : ofText (atlas.render false) = .ok atlas := by
  obtain ⟨text,rendered,layout⟩ := atlas.layout_render false
  rw [ofText,rendered,Json.Document.ofText_layout layout]
  exact Json.Document.read_of_reads atlas.ofDraft_toJson

theorem exists_keys {names : List String} (order : names.Pairwise (· < ·)) :
    ∃ atlas : Atlas, atlas.projects.keys = names := by
  have increasing : Increasing (names.map fun name => (name,Project.mk .empty)) :=
    List.pairwise_map.mpr order
  exact ⟨⟨⟨_,increasing⟩⟩,by simp [Table.keys,Function.comp_def]⟩

/-- The atlases that can be had hold any number of projects: a new one has one, and for each list of
names in order there is a text of an atlas with these projects. Without a project nothing can be put in;
otherwise what is put in is found right afterwards, in the first project, and the others stay as they
are. The text of an atlas has the files of all projects, and the look-ups and totals are those of the
first, so they cover the text if there is one project. -/
theorem reachable_exact (names : List String) :
    ((∃ text atlas, ofText text = .ok atlas ∧ atlas.projects.keys = names) ↔
      names.Pairwise (· < ·)) ∧
    ∀ atlas, Reachable names atlas →
      atlas.projects.keys = names ∧
      (names = [] → ∀ record, atlas.insert record = (atlas,none) ∧ atlas.module? record.path = none) ∧
      (names ≠ [] → ∀ record, ∃ next, atlas.insert record = (next,atlas.module? record.path) ∧
        (∀ path, next.module? path = if record.path = path then some record else atlas.module? path) ∧
        next.otherRecords = atlas.otherRecords) ∧
      atlas.toJson.writtenRecords =
        (atlas.modules.values ++ atlas.otherRecords).map ModuleRecord.toJson ∧
      atlas.totals = .counted atlas.modules.values ∧
      (names.length = 1 → atlas.otherRecords = []) := by
  refine ⟨⟨?_,fun order => ?_⟩,fun atlas reachable => ?_⟩
  · rintro ⟨text,atlas,_,rfl⟩
    exact List.pairwise_map.mpr atlas.projects.increasing
  · obtain ⟨atlas,keys⟩ := exists_keys order
    exact ⟨_,atlas,ofText_compact atlas,keys⟩
  · have keys := reachable.keys
    subst keys
    refine ⟨rfl,fun empty record => ⟨insert_of_no_project empty record,?_⟩,fun filled record => ?_,
      writtenRecords_toJson atlas,totals_eq atlas,fun one => ?_⟩
    · rw [module?,modules,project?,List.map_eq_nil_iff.mp empty]
      rfl
    · obtain ⟨next,step,inserted⟩ := insert_of_project filled record
      refine ⟨next,step,fun path => ?_,inserted.others⟩
      rw [module?,module?,inserted.modules,Table.get?_insert]
    · obtain ⟨name,single⟩ := List.length_eq_one_iff.mp one
      exact otherRecords_of_single single

/-- Two projects, of which the second one has a file. -/
def twoProjects : Atlas :=
  ⟨(Table.empty.insert "a" ⟨.empty⟩).insert "b" ⟨Table.empty.insert "x.ts" (.empty "x.ts" [])⟩⟩

/-- A text without any project is accepted, and what is put in afterwards is lost; of two projects the
second one is written but not counted. -/
theorem projects_not_single :
    (∃ atlas, ofText "\x7b\x7d" = .ok atlas ∧ Reachable [] atlas ∧ atlas.projects.keys.length = 0 ∧
      (atlas.insert (.empty "a.ts" [])).1.module? "a.ts" = none) ∧
    Reachable ["a","b"] twoProjects ∧ twoProjects.projects.keys.length = 2 ∧ twoProjects.totals = .zero ∧
      twoProjects.toJson.writtenRecords = [(ModuleRecord.empty "x.ts" []).toJson] := by
  have empty : ofText "\x7b\x7d" = .ok ⟨.empty⟩ := ofText_compact ⟨.empty⟩
  exact ⟨⟨_,empty,.read empty,rfl,rfl⟩,.read (ofText_compact twoProjects),rfl,rfl,rfl⟩

end Atlas

end SourceAtlas
