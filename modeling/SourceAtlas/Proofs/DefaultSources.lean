import SourceAtlas.Proofs.GlobSegments
import SourceAtlas.Proofs.PathKey
import SourceAtlas.SourceFilter

/-! The sources that the default patterns choose, told by the names of their paths. -/
namespace SourceAtlas.SourceFilter

open Glob
open Text (joinWith splitAt)

-- The default patterns

def moduleEndings : List String := [".ts",".tsx",".mts",".cts"]

def scriptEndings : List String := [".js",".jsx",".mjs",".cjs"]

def endings (scripts : Bool) : List String := moduleEndings ++ if scripts then scriptEndings else []

def sourceForms (scripts : Bool) : List Form := (endings scripts).map Form.ending

def excludedForms (tests : Bool) : List Form :=
  [.ending ".d.ts",.ending ".d.mts",.ending ".d.cts",.within ".generated."] ++
    if tests then [] else [.within ".test.",.within ".spec.",.within ".mock.",.within ".mocks.",
      .below "__mocks__",.below "__tests__"]

theorem readSet_sources (scripts : Bool) :
    readSet false (Settings.default.sourceGlobs ++ if scripts then javaScriptGlobs else []) =
      .ok (Form.patterns (sourceForms scripts)) := by
  have globs : Settings.default.sourceGlobs ++ (if scripts then javaScriptGlobs else []) =
      (sourceForms scripts).map Form.pattern := by
    cases scripts <;> decide
  rw [globs]
  apply Form.readSet_patterns
  cases scripts <;> decide

theorem readSet_exclusions {settings : Settings} (excluded : settings.excludedPaths = []) :
    readSet false settings.exclusions = .ok (Form.patterns (excludedForms settings.includeTestFiles)) := by
  have globs : settings.exclusions = (excludedForms settings.includeTestFiles).map Form.pattern := by
    rw [Settings.exclusions,excluded]
    cases settings.includeTestFiles <;> decide
  rw [globs]
  apply Form.readSet_patterns
  cases settings.includeTestFiles <;> decide

theorem new_sources {settings : Settings} {options : CompilerOptions} {filter : SourceFilter}
    (globs : settings.sourceGlobs = Settings.default.sourceGlobs)
    (chosen : SourceFilter.new settings options = .ok filter) :
    filter.sources = Form.patterns (sourceForms options.allowJavaScript) := by
  have read := readSet_sources options.allowJavaScript
  rw [← globs] at read
  rw [SourceFilter.new,mapError_eq_ok_iff] at chosen
  dsimp only at chosen
  rw [read] at chosen
  split at chosen
  · simp only [bind_eq_ok_iff] at chosen
    obtain ⟨_,_,_,known,_,_,_,_,returned⟩ := chosen
    exact Except.ok.inj returned ▸ (Except.ok.inj known).symm
  · simp only [bind_eq_ok_iff] at chosen
    obtain ⟨_,_,_,known,_,_,_,_,returned⟩ := chosen
    exact Except.ok.inj returned ▸ (Except.ok.inj known).symm

theorem new_of_default {settings : Settings} {options : CompilerOptions}
    (globs : settings.sourceGlobs = Settings.default.sourceGlobs) (excluded : settings.excludedPaths = [])
    (includes : options.includePatterns = []) (excludes : options.excludePatterns = []) :
    SourceFilter.new settings options = .ok ⟨Form.patterns (sourceForms options.allowJavaScript),
      Form.patterns (excludedForms settings.includeTestFiles),[],none,settings.excludedFolders⟩ := by
  rw [SourceFilter.new,mapError_eq_ok_iff]
  dsimp only
  rw [includes,excludes,globs,readSet_sources,readSet_exclusions excluded]
  rfl

-- Keys of names

theorem key_of_names {path : Path} {names : List String} (parts : path.components = names.map .name) :
    path.key.toList = joinWith ['/'] (names.map String.toList) := by
  rw [Path.key,Path.keyOf,parts,String.toList_ofList,List.map_map]
  rfl

theorem isName_of_parts {path : Path} {names : List String} (parts : path.components = names.map .name) :
    ∀ name ∈ names, Component.IsName name := by
  have proper := path.components_proper
  rw [parts] at proper
  cases names with
  | nil => exact List.forall_mem_nil _
  | cons first names =>
    obtain ⟨impossible | impossible | here,later⟩ := proper
    · cases impossible
    · cases impossible
    · exact List.forall_mem_cons.mpr ⟨here,fun name inside => later _ (List.mem_map_of_mem inside)⟩

theorem hasName_of_parts {path : Path} {names : List String} (parts : path.components = names.map .name)
    (some : names ≠ []) : hasName (Utf8.encode path.key.toList) = true := by
  obtain ⟨names,last,rfl⟩ := (List.eq_nil_or_concat names).resolve_left some
  rw [List.concat_eq_append] at parts
  obtain ⟨full,_,up,clean⟩ := isName_of_parts parts last (by simp)
  have named : last.toList ≠ ['.','.'] := fun same => up (String.toList_inj.mp same)
  rw [key_of_names parts,List.map_append,List.map_singleton,Text.joinWith_concat]
  exact hasName_of_name (Text.flatMap_separator ['/'] _) clean (by simpa using full) named

theorem mem_dropLast_iff {α : Type} {item : α} {items : List α} :
    item ∈ items.dropLast ↔ ∃ before after, items = before ++ item :: after ∧ after ≠ [] := by
  constructor
  · intro inside
    obtain ⟨before,after,parted⟩ := List.append_of_mem inside
    have some : items ≠ [] := by
      rintro rfl
      cases inside
    refine ⟨before,after ++ [items.getLast some],?_,List.concat_ne_nil _ _⟩
    rw [← List.cons_append,← List.append_assoc,← parted,List.dropLast_append_getLast]
  · rintro ⟨before,after,rfl,left⟩
    rw [List.dropLast_append_cons,List.dropLast_cons_of_ne_nil left]
    simp

/-- A path lies below a folder of a given name if one of its names but the last is that name. -/
theorem covers_below_iff {names : List String} (valid : ∀ name ∈ names, Component.IsName name)
    {folder : String} (clean : '/' ∉ folder.toList) :
    (Form.below folder).Covers (joinWith ['/'] (names.map String.toList)) ↔ folder ∈ names.dropLast := by
  have clear : ∀ name ∈ names.map String.toList, '/' ∉ name :=
    List.forall_mem_map.mpr fun name inside => (valid name inside).2.2.2
  have lies {after : List (List Char)} (left : after ≠ []) (clearAfter : ∀ name ∈ after, '/' ∉ name) :=
    join_mem_below_iff (List.cons_ne_nil folder.toList []) (List.forall_mem_singleton.mpr clean) left clearAfter
  by_cases empty : names = []
  · subst empty
    simp [Form.Covers,joinWith]
  · rw [← List.mem_map_of_injective fun _ _ => String.toList_inj.mp,List.map_dropLast,mem_dropLast_iff,
      ← Form.mem_tokens_iff,Form.texts_below,join_mem_folders_mul_iff (by simpa using empty) clear]
    constructor
    · rintro ⟨before,after,parted,left,inside⟩
      have clearAfter := (List.forall_mem_append.mp (parted ▸ clear)).2
      obtain ⟨below,rfl,more⟩ := (lies left clearAfter).mp inside
      exact ⟨before,below,parted,more⟩
    · rintro ⟨before,below,parted,more⟩
      have clearAfter := (List.forall_mem_append.mp (parted ▸ clear)).2
      have left : folder.toList :: below ≠ [] := List.cons_ne_nil _ _
      exact ⟨before,_,parted,left,(lies left clearAfter).mpr ⟨below,rfl,more⟩⟩

-- What the default patterns choose

theorem hasName_of_ending {scripts : Bool} {ending : String} {text : List Char}
    (member : ending ∈ endings scripts) (ends : ending.toList <:+ text) :
    hasName (Utf8.encode text) = true := by
  have last : ∀ ending ∈ endings scripts,
      ending.toList.getLast? = some 's' ∨ ending.toList.getLast? = some 'x' := by
    cases scripts <;> decide
  obtain ⟨front,rfl⟩ := ends
  rcases last ending member with here | here
  · obtain ⟨word,spelled⟩ := List.getLast?_eq_some_iff.mp here
    rw [spelled,← List.append_assoc]
    exact hasName_of_last (by decide) (by decide)
  · obtain ⟨word,spelled⟩ := List.getLast?_eq_some_iff.mp here
    rw [spelled,← List.append_assoc]
    exact hasName_of_last (by decide) (by decide)

theorem anyMatch_sources (scripts : Bool) (key : String) :
    anyMatch (Form.patterns (sourceForms scripts)) key = true ↔
      ∃ ending ∈ endings scripts, ending.toList <:+ key.toList := by
  rw [Form.anyMatch_patterns]
  constructor
  · rintro ⟨_,inside,covers,_⟩
    obtain ⟨ending,member,rfl⟩ := List.mem_map.mp inside
    exact ⟨ending,member,covers⟩
  · rintro ⟨ending,member,ends⟩
    exact ⟨.ending ending,List.mem_map_of_mem member,ends,fun _ => hasName_of_ending member ends⟩

/-- The names of a path that is a source by default. `tests` says whether files that serve tests are
sources too, and `scripts` whether JavaScript files are. -/
structure IsDefaultSource (tests scripts : Bool) (names : List String) : Prop where
  ending : ∃ ending ∈ endings scripts, ending.toList <:+ ("/".intercalate names).toList
  declares : ∀ ending ∈ [".d.ts",".d.mts",".d.cts"], ¬ending.toList <:+ ("/".intercalate names).toList
  generated : ¬".generated.".toList <:+: ("/".intercalate names).toList
  marks : tests = false → ∀ mark ∈ [".test.",".spec.",".mock.",".mocks."],
    ¬mark.toList <:+: ("/".intercalate names).toList
  folders : tests = false → ∀ folder ∈ names.dropLast, folder ≠ "__mocks__" ∧ folder ≠ "__tests__"

theorem not_excluded_iff {names : List String} (valid : ∀ name ∈ names, Component.IsName name)
    {key : List Char} (joined : key = joinWith ['/'] (names.map String.toList)) (tests : Bool) :
    (∀ form ∈ excludedForms tests, ¬form.Covers key) ↔
      (∀ ending ∈ [".d.ts",".d.mts",".d.cts"], ¬ending.toList <:+ key) ∧
      ¬".generated.".toList <:+: key ∧
      (tests = false → ∀ mark ∈ [".test.",".spec.",".mock.",".mocks."], ¬mark.toList <:+: key) ∧
      (tests = false → ∀ folder ∈ names.dropLast, folder ≠ "__mocks__" ∧ folder ≠ "__tests__") := by
  have ends (word : String) : (Form.ending word).Covers key ↔ word.toList <:+ key := Iff.rfl
  have holds (word : String) : (Form.within word).Covers key ↔ word.toList <:+: key := Iff.rfl
  have lies (folder : String) (clean : '/' ∉ folder.toList) :
      (Form.below folder).Covers key ↔ folder ∈ names.dropLast := joined ▸ covers_below_iff valid clean
  have mocks := lies "__mocks__" (by decide)
  have testFolder := lies "__tests__" (by decide)
  have apart : (∀ folder ∈ names.dropLast, folder ≠ "__mocks__" ∧ folder ≠ "__tests__") ↔
      "__mocks__" ∉ names.dropLast ∧ "__tests__" ∉ names.dropLast := by
    simp only [ne_eq,forall_and]
    exact and_congr ⟨fun free inside => free _ inside rfl,fun free folder inside same => free (same ▸ inside)⟩
      ⟨fun free inside => free _ inside rfl,fun free folder inside same => free (same ▸ inside)⟩
  rw [apart]
  cases tests with
  | true => simp [excludedForms,ends,holds,and_assoc]
  | false => simp [excludedForms,ends,holds,mocks,testFolder,and_assoc]

/-- By default the sources are the paths whose key has one of a few endings, unless the key ends as that of
a declaration file, has a mark of generated or test files in it, or lies in a folder of tests. -/
theorem isSource_default {settings : Settings} {options : CompilerOptions}
    (globs : settings.sourceGlobs = Settings.default.sourceGlobs) (excluded : settings.excludedPaths = [])
    (includes : options.includePatterns = []) (excludes : options.excludePatterns = []) :
    ∃ filter, SourceFilter.new settings options = .ok filter ∧
      ∀ (path : Path) (names : List String), path.components = names.map .name →
        (filter.isSource path = true ↔
          IsDefaultSource settings.includeTestFiles options.allowJavaScript names) := by
  refine ⟨_,new_of_default globs excluded includes excludes,fun path names parts => ?_⟩
  have joined := key_of_names parts
  have key : ("/".intercalate names).toList = path.key.toList := by
    rw [joined,Text.joinWith_eq_intercalate,String.toList_intercalate]
    rfl
  have taken : ∀ sources excluded folders,
      (SourceFilter.mk sources excluded [] none folders).isSource path = true ↔
        anyMatch sources path.key = true ∧ ¬anyMatch excluded path.key = true := by
    intro sources excluded folders
    simp [isSource,anyMatch]
  have free := not_excluded_iff (isName_of_parts parts) joined settings.includeTestFiles
  rw [taken,anyMatch_sources,Form.anyMatch_patterns]
  constructor
  · rintro ⟨⟨ending,member,ends⟩,apart⟩
    have named := hasName_of_ending member ends
    obtain ⟨declares,generated,marks,folders⟩ :=
      free.mp fun form inside covers => apart ⟨form,inside,covers,fun _ => named⟩
    rw [← key] at declares generated marks ends
    exact ⟨⟨ending,member,ends⟩,declares,generated,marks,folders⟩
  · rintro ⟨ending,declares,generated,marks,folders⟩
    rw [key] at ending declares generated marks
    refine ⟨ending,?_⟩
    rintro ⟨form,inside,covers,_⟩
    exact free.mpr ⟨declares,generated,marks,folders⟩ form inside covers

theorem isSource_default_bareEnding : ∃ filter, SourceFilter.new .default .default = .ok filter ∧
    filter.isSource ⟨"src/.ts"⟩ = true ∧ filter.isSource ⟨"__mocks__/a.ts"⟩ = false := by
  obtain ⟨filter,chosen,sources⟩ := @isSource_default .default .default rfl rfl rfl rfl
  have bare : IsDefaultSource false false ["src",".ts"] :=
    ⟨⟨".ts",by decide,by decide⟩,by decide,by decide,fun _ => by decide,fun _ => by decide⟩
  have mock : ¬IsDefaultSource false false ["__mocks__","a.ts"] := fun source =>
    (source.folders rfl "__mocks__" (by decide)).1 rfl
  refine ⟨filter,chosen,(sources ⟨"src/.ts"⟩ ["src",".ts"] (by decide)).mpr bare,?_⟩
  apply Bool.eq_false_iff.mpr
  intro taken
  exact mock ((sources ⟨"__mocks__/a.ts"⟩ ["__mocks__","a.ts"] (by decide)).mp taken)

end SourceAtlas.SourceFilter
