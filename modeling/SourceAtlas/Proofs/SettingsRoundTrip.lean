import SourceAtlas.Proofs.FirstFault
import SourceAtlas.Proofs.Utf8
import SourceAtlas.Proofs.YamlDocument
import SourceAtlas.Settings.Yaml

/-! Settings that are written as YAML are read back as they were. Every field is written except a missing
name of the project, which is missing by default as well. -/
namespace SourceAtlas.Settings

open Yaml

-- Nodes of fields

theorem textsOf?_listNode (root : Node) (texts : List String) :
    textsOf? root (listNode texts) = some texts := by
  have same : textOf? root ∘ textNode = fun text => pure text := rfl
  change (texts.map textNode).mapM (textOf? root) = some texts
  rw [List.mapM_map,same,List.mapM_pure (f := fun text => text),List.map_id']
  rfl

/-- A text is written plain only if it is read as nothing else. -/
theorem isAmbiguous_of_styleOf {text : String} (plain : styleOf text = .plain) :
    isAmbiguous text = false := by
  unfold styleOf at plain
  dsimp only at plain
  split at plain
  · split at plain <;> cases plain
  · split at plain
    · next both => exact (Bool.not_eq_true' _).mp (Bool.and_eq_true_iff.mp both).1
    · cases plain

theorem optionalTextOf?_textNode (root : Node) (text : String) :
    optionalTextOf? root (textNode text) = some (some text) := by
  cases style : styleOf text with
  | plain =>
    obtain ⟨nonempty,noNull⟩ := unambiguous (isAmbiguous_of_styleOf style)
    simp [optionalTextOf?,textNode,style,resolve?,Properties.none,nonempty,noNull]
  | quoted => rw [textNode,style]; rfl
  | literal => rw [textNode,style]; rfl
  | folded => rw [textNode,style]; rfl

theorem truthOf?_nameNode (root : Node) (truth : Bool) :
    truthOf? root (nameNode (if truth then "true" else "false")) = some truth := by
  cases truth <;> rfl

-- Members

/-- The members that are written after the version and the name of the project. -/
def laterMembers (settings : Settings) : List (Node × Node) :=
  [(nameNode "source_globs",listNode settings.sourceGlobs),
    (nameNode "excluded_paths",listNode settings.excludedPaths),
    (nameNode "excluded_dirs",listNode settings.excludedFolders),
    (nameNode "manifest_markers",listNode settings.manifestMarkers),
    (nameNode "include_test_files",nameNode (if settings.includeTestFiles then "true" else "false"))]

def projectMembers (projectName : Option String) : List (Node × Node) :=
  match projectName with
  | none => []
  | some name => [(nameNode "project_name",textNode name)]

theorem readMembers?_cons {root value : Node} {start next : Settings} {seen : List String} {name : String}
    (read : readField? start root name value = some (some next)) (new : name ∉ seen)
    (members : List (Node × Node)) : readMembers? root start seen ((nameNode name,value) :: members) =
      readMembers? root next (name :: seen) members := by
  have named : textOf? root (nameNode name) = some name := rfl
  simp [readMembers?,named,read,new]

theorem readField?_listNode (root : Node) (start : Settings) (texts : List String) :
    readField? start root "source_globs" (listNode texts) =
        some (some { start with sourceGlobs := texts }) ∧
      readField? start root "excluded_paths" (listNode texts) =
        some (some { start with excludedPaths := texts }) ∧
      readField? start root "excluded_dirs" (listNode texts) =
        some (some { start with excludedFolders := texts }) ∧
      readField? start root "manifest_markers" (listNode texts) =
        some (some { start with manifestMarkers := texts }) := by
  have read (next : List String → Settings) :
      (do return next (← textsOf? root (listNode texts))) = some (next texts) := by
    rw [textsOf?_listNode]
    rfl
  exact ⟨congrArg some (read _),congrArg some (read _),congrArg some (read _),congrArg some (read _)⟩

theorem readField?_projectName (root : Node) (start : Settings) (name : String) :
    readField? start root "project_name" (textNode name) =
      some (some { start with projectName := some name }) := by
  change some (do return { start with projectName := ← optionalTextOf? root (textNode name) }) = _
  rw [optionalTextOf?_textNode]
  rfl

theorem readField?_includeTestFiles (root : Node) (start : Settings) (truth : Bool) :
    readField? start root "include_test_files" (nameNode (if truth then "true" else "false")) =
      some (some { start with includeTestFiles := truth }) := by
  change some (do return { start with includeTestFiles := ← truthOf? root (nameNode _) }) = _
  rw [truthOf?_nameNode]
  rfl

theorem readMembers?_laterMembers {seen : List String} (early : seen ⊆ ["project_name","version"])
    (root : Node) (start settings : Settings) : readMembers? root start seen (laterMembers settings) =
      some { settings with version := start.version, projectName := start.projectName } := by
  have new (name : String) (before : List String) (known : name ∉ before ++ ["project_name","version"]) :
      name ∉ before ++ seen := by
    simp only [List.mem_append,not_or] at known ⊢
    exact ⟨known.1,fun inside => known.2 (early inside)⟩
  have list (start : Settings) (texts : List String) := readField?_listNode root start texts
  refine (readMembers?_cons (list _ _).1 (new _ [] (by decide)) _).trans ?_
  refine (readMembers?_cons (list _ _).2.1 (new _ ["source_globs"] (by decide)) _).trans ?_
  refine (readMembers?_cons (list _ _).2.2.1
    (new _ ["excluded_paths","source_globs"] (by decide)) _).trans ?_
  refine (readMembers?_cons (list _ _).2.2.2
    (new _ ["excluded_dirs","excluded_paths","source_globs"] (by decide)) _).trans ?_
  exact readMembers?_cons (readField?_includeTestFiles root _ _)
    (new _ ["manifest_markers","excluded_dirs","excluded_paths","source_globs"] (by decide)) _

/-- Every member is read into its field; a name that is not written is not there by default. -/
theorem readMembers?_written (root : Node) (settings : Settings) : readMembers? root default []
    ((nameNode "version",textNode settings.version) :: (projectMembers settings.projectName ++
      laterMembers settings)) = some settings := by
  have versionRead : readField? default root "version" (textNode settings.version) =
      some (some { default with version := settings.version }) := rfl
  obtain ⟨version,projectName,sourceGlobs,excludedPaths,excludedFolders,manifestMarkers,tests⟩ := settings
  rw [readMembers?_cons versionRead List.not_mem_nil]
  cases projectName with
  | none => exact readMembers?_laterMembers (by decide) root _ _
  | some name =>
    rw [projectMembers,List.singleton_append,
      readMembers?_cons (readField?_projectName root _ name) (by decide)]
    exact readMembers?_laterMembers (by decide) root _ _

-- Texts

theorem readsMembers_projectName (projectName : Option String) :
    ReadsMembers
      (match projectName with
      | none => []
      | some name => writeMember "project_name" (writeText name))
      (projectMembers projectName) := by
  cases projectName with
  | none => exact .nil
  | some name => exact .text (memberName_of_mayBeName (by decide)) name

theorem readsMembers_truth {name : String} (isName : MemberName name) (truth : Bool) :
    ReadsMembers
      (writeMember name (if truth then ['t','r','u','e'] else ['f','a','l','s','e']))
      [(nameNode name,nameNode (if truth then "true" else "false"))] := by
  cases truth with
  | false => exact .plain isName (plainText_of_mayBePlain (by decide))
  | true => exact .plain isName (plainText_of_mayBePlain (by decide))

theorem document?_toYaml (settings : Settings) : document? (toYaml settings).toList =
    some (.node (.mapping .none ((nameNode "version",textNode settings.version) ::
      (projectMembers settings.projectName ++ laterMembers settings)))) := by
  have list (name : String) (check : mayBeName name = true) (texts : List String) :=
    ReadsMembers.list (memberName_of_mayBeName check) texts
  have truth := readsMembers_truth (memberName_of_mayBeName (show mayBeName "include_test_files" = true by
    decide)) settings.includeTestFiles
  have reads := (readsMembers_projectName settings.projectName).append
    ((list "source_globs" (by decide) settings.sourceGlobs).append
      ((list "excluded_paths" (by decide) settings.excludedPaths).append
        ((list "excluded_dirs" (by decide) settings.excludedFolders).append
          ((list "manifest_markers" (by decide) settings.manifestMarkers).append
            truth))))
  have read := @document?_members "version" (memberName_of_mayBeName (by decide)) settings.version _ _ reads
  rw [toYaml,String.toList_ofList]
  simp only [List.append_assoc] at read ⊢
  exact read

theorem ofYaml?_toYaml (settings : Settings) : ofYaml? (toYaml settings) = some settings := by
  rw [ofYaml?,document?_toYaml,Option.bind_some]
  exact readMembers?_written _ settings

-- Files

theorem read_eq_ok_iff {disk : Disk} {path : Path} {text : String} {settings : Settings}
    (held : disk.readText path = .ok text) (meant : ofYaml? text = some settings) :
    read disk path = .ok settings ↔ settings.check = .ok () := by
  rw [read,mapError_eq_ok_iff,bind_eq_ok_iff]
  constructor
  · rintro ⟨other,found,later⟩
    cases held.symm.trans (mapError_eq_ok_iff.mp found)
    rw [meant] at later
    obtain ⟨_,checked,_⟩ := bind_eq_ok_iff.mp later
    exact mapError_eq_ok_iff.mp checked
  · intro checked
    refine ⟨text,mapError_eq_ok_iff.mpr held,?_⟩
    rw [meant]
    exact bind_eq_ok_iff.mpr ⟨(),mapError_eq_ok_iff.mpr checked,rfl⟩

/-- Reading undoes writing, and a file that holds what is written of settings is read as these settings
if they pass the check. -/
theorem read_written (settings : Settings) : ofYaml? (toYaml settings) = some settings ∧
    ∀ (disk : Disk) (path : Path), disk.read path = .ok (Utf8.encode (toYaml settings).toList) →
      (read disk path = .ok settings ↔ settings.check = .ok ()) := by
  have meant := ofYaml?_toYaml settings
  refine ⟨meant,fun disk path held => ?_⟩
  have text : disk.readText path = .ok (toYaml settings) := by
    refine bind_eq_ok_iff.mpr ⟨_,held,?_⟩
    rw [Utf8.decode?_encode]
    exact congrArg Except.ok String.ofList_toList
  exact read_eq_ok_iff text meant

/-- Texts that YAML takes for something else where they are written as they are. -/
def awkward : Settings where
  version := "1.0"
  projectName := some " a: \"b\" # c\n"
  sourceGlobs := ["null","- x"]
  excludedPaths := []
  excludedFolders := ["","it\x27s","\r\n","a\nb\n\n"]
  manifestMarkers := ["true"]
  includeTestFiles := true

def fileDisk (bytes : List UInt8) : Disk := ⟨.folder "" [.file "codemap.yaml" bytes],[]⟩

theorem read_fileDisk (bytes : List UInt8) : (fileDisk bytes).read ⟨"/codemap.yaml"⟩ = .ok bytes := by
  have parts : Disk.partsOf "/codemap.yaml" = ["","codemap.yaml"] := by decide
  have walked : Disk.walkParts (fileDisk bytes).root true Disk.linkLimit [] ["","codemap.yaml"] =
      .ok [.file "codemap.yaml" bytes] := by
    have found : Disk.Entry.find? (Disk.Trail.entry (fileDisk bytes).root []) "codemap.yaml" =
        some (.file "codemap.yaml" bytes) := rfl
    rw [Disk.walkParts,if_pos (.inl rfl),Disk.walkParts,if_neg (by decide),if_neg (by decide),
      if_neg (by decide),found]
    rfl
  have resolved : (fileDisk bytes).resolve true ⟨"/codemap.yaml"⟩ =
      .ok ⟨["codemap.yaml"],.file "codemap.yaml" bytes⟩ := by
    refine bind_eq_ok_iff.mpr ⟨(),rfl,bind_eq_ok_iff.mpr ⟨(),rfl,bind_eq_ok_iff.mpr ⟨[],rfl,?_⟩⟩⟩
    refine bind_eq_ok_iff.mpr ⟨[.file "codemap.yaml" bytes],?_,rfl⟩
    rw [parts]
    exact walked
  exact bind_eq_ok_iff.mpr ⟨_,resolved,rfl⟩

theorem read_written_awkward : awkward.check = .ok () ∧
    read (fileDisk (Utf8.encode (toYaml awkward).toList)) ⟨"/codemap.yaml"⟩ = .ok awkward := by
  have checked : awkward.check = .ok () := by decide +kernel
  exact ⟨checked,((read_written awkward).2 _ ⟨"/codemap.yaml"⟩ (read_fileDisk _)).mpr checked⟩

end SourceAtlas.Settings
