import SourceAtlas.Proofs.DefaultSources
import SourceAtlas.Proofs.SettingsRoundTrip

/-! Accepted settings give a source filter. The check of settings and the making of a filter list the
patterns on their own; what the filter reads beyond the checked patterns is built in, or stands in the
compiler options. -/
namespace SourceAtlas

namespace Glob

variable {separated : Bool} {texts : List String}

def IsReadable (separated : Bool) (text : String) : Prop :=
  ∃ pattern, Pattern.parse separated text = .ok pattern

/-- A set of patterns can be used as soon as each of its patterns can be read. -/
def Builds (separated : Bool) (texts : List String) : Prop :=
  (∀ text ∈ texts, IsReadable separated text) → ∃ patterns, readSet separated texts = .ok patterns

theorem exists_parseAll_iff : (∃ patterns, parseAll separated texts = .ok patterns) ↔
    ∀ text ∈ texts, IsReadable separated text := by
  constructor
  · rintro ⟨patterns,parsed⟩
    have each := mapM_eq_ok_iff.mp parsed
    clear parsed
    induction each with
    | nil => exact fun _ absent => absurd absent List.not_mem_nil
    | cons here _ ih => exact List.forall_mem_cons.mpr ⟨⟨_,here⟩,ih⟩
  · intro each
    cases parsed : parseAll separated texts with
    | ok patterns => exact ⟨patterns,rfl⟩
    | error fault =>
      obtain ⟨before,text,after,rfl,_,failed⟩ := mapM_eq_error_iff.mp parsed
      obtain ⟨pattern,read⟩ := each text (by simp)
      cases read.symm.trans failed

theorem readable_of_readSet (known : ∃ patterns, readSet separated texts = .ok patterns) :
    ∀ text ∈ texts, IsReadable separated text := by
  obtain ⟨_,read⟩ := known
  obtain ⟨_,parsed,_⟩ := bind_eq_ok_iff.mp read
  exact exists_parseAll_iff.mp ⟨_,mapError_eq_ok_iff.mp parsed⟩

end Glob

open Glob (IsReadable Builds readSet)

namespace Settings

variable {settings : Settings}

theorem check_eq_ok_iff : settings.check = .ok () ↔ settings.sourceGlobs ≠ [] ∧
    settings.manifestMarkers ≠ [] ∧
    ∀ text ∈ settings.sourceGlobs ++ settings.excludedPaths, IsReadable false text := by
  rw [check]
  by_cases noSources : settings.sourceGlobs = []
  · simp [noSources]
  · by_cases noMarkers : settings.manifestMarkers = []
    · simp [noSources,noMarkers]
    · rw [if_neg (by simpa using noSources),if_neg (by simpa using noMarkers),← Glob.exists_parseAll_iff]
      simp only [ne_eq,noSources,noMarkers,not_false_eq_true,true_and]
      split
      · next patterns parsed => exact ⟨fun _ => ⟨patterns,parsed⟩,fun _ => rfl⟩
      · next fault refused => simp [refused]

theorem check_default : default.check = .ok () := by decide +kernel

theorem check_of_read {disk : Disk} {path : Path} (known : read disk path = .ok settings) :
    settings.check = .ok () := by
  rw [read,mapError_eq_ok_iff] at known
  obtain ⟨text,_,later⟩ := bind_eq_ok_iff.mp known
  cases meant : ofYaml? text with
  | none => simp [meant,throw,throwThe,MonadExceptOf.throw] at later
  | some other =>
    rw [meant] at later
    obtain ⟨_,checked,returned⟩ := bind_eq_ok_iff.mp later
    cases returned
    exact mapError_eq_ok_iff.mp checked

/-- Settings pass the check wherever they come from. -/
theorem check_of_load {disk : Disk} {folder : Path} {given : Option Path}
    (loaded : load disk folder given = .ok settings) : settings.check = .ok () := by
  unfold load at loaded
  split at loaded
  · exact check_of_read loaded
  · cases loaded
    exact check_default

end Settings

namespace SourceFilter

variable {settings : Settings} {options : CompilerOptions}

/-- The sets of patterns that a filter reads; those of compiler options are read with stars that stay
within a part of a path. -/
def patternSets (settings : Settings) (options : CompilerOptions) : List (Bool × List String) := [
  (true,options.includePatterns.map expandFolder),
  (false,settings.sourceGlobs ++ if options.allowJavaScript then javaScriptGlobs else []),
  (false,settings.exclusions),
  (true,options.excludePatterns.map expandFolder)]

theorem exists_new_iff : (∃ filter, SourceFilter.new settings options = .ok filter) ↔
    ∀ set ∈ patternSets settings options, ∃ patterns, readSet set.1 set.2 = .ok patterns := by
  simp only [patternSets,List.forall_mem_cons,List.not_mem_nil,false_implies,implies_true,and_true]
  rw [SourceFilter.new]
  simp only [mapError_eq_ok_iff,compilerPatterns]
  by_cases empty : options.includePatterns = []
  · have nothing : readSet true ([].map expandFolder) = .ok [] := rfl
    rw [if_pos (by simp [empty]),empty,nothing]
    simp only [bind_eq_ok_iff]
    constructor
    · rintro ⟨filter,_,_,sources,first,excluded,second,further,third,_⟩
      exact ⟨⟨[],rfl⟩,⟨sources,first⟩,⟨excluded,second⟩,⟨further,third⟩⟩
    · rintro ⟨_,⟨sources,first⟩,⟨excluded,second⟩,⟨further,third⟩⟩
      exact ⟨_,none,rfl,sources,first,excluded,second,further,third,rfl⟩
  · rw [if_neg (by simpa using empty)]
    simp only [bind_eq_ok_iff]
    constructor
    · rintro ⟨filter,_,chosen,sources,first,excluded,second,further,third,_⟩
      obtain ⟨included,read,_⟩ := map_eq_ok_iff.mp chosen
      exact ⟨⟨included,read⟩,⟨sources,first⟩,⟨excluded,second⟩,⟨further,third⟩⟩
    · rintro ⟨⟨included,chosen⟩,⟨sources,first⟩,⟨excluded,second⟩,⟨further,third⟩⟩
      exact ⟨_,some included,map_eq_ok_iff.mpr ⟨included,chosen,rfl⟩,sources,first,excluded,second,
        further,third,rfl⟩

theorem glob_of_new {fault : Fault} (failed : SourceFilter.new settings options = .error fault) :
    ∃ glob, fault = .glob glob := by
  rw [SourceFilter.new] at failed
  obtain ⟨glob,_,rfl⟩ := mapError_eq_error_iff.mp failed
  exact ⟨glob,rfl⟩

theorem readSets_of_new {filter : SourceFilter} (made : SourceFilter.new settings options = .ok filter) :
    (∃ patterns, readSet false (settings.sourceGlobs ++
      if options.allowJavaScript then javaScriptGlobs else []) = .ok patterns) ∧
    ∃ patterns, readSet false settings.exclusions = .ok patterns := by
  have sets := exists_new_iff.mp ⟨filter,made⟩
  simp only [patternSets,List.forall_mem_cons] at sets
  exact ⟨sets.2.1,sets.2.2.1⟩

theorem readable_javaScriptGlobs : ∀ text ∈ javaScriptGlobs, IsReadable false text := fun text inside =>
  Glob.readable_of_readSet ⟨_,readSet_sources true⟩ text (List.mem_append_right _ inside)

theorem readable_builtIn : ∀ text ∈ Settings.alwaysExcluded ++ Settings.testPatterns,
    IsReadable false text := fun text inside =>
  Glob.readable_of_readSet ⟨_,@readSet_exclusions .default rfl⟩ text (List.mem_append_left _ inside)

/-- Accepted settings, with test files or without them, give a filter with any compiler options of which
the patterns can be read, if each set of patterns can be used as soon as its patterns can be read.
Settings that are refused though they have source patterns and markers give no filter with any options. -/
theorem new_of_load :
    (∀ (disk : Disk) (folder : Path) (given : Option Path) (settings : Settings),
      Settings.load disk folder given = .ok settings →
      ∀ (options : CompilerOptions) (tests scripts : Bool),
        (∀ text ∈ options.includePatterns ++ options.excludePatterns,
          IsReadable true (expandFolder text)) →
        (∀ set ∈ patternSets { settings with includeTestFiles := tests }
          { options with allowJavaScript := scripts }, Builds set.1 set.2) →
        ∃ filter, SourceFilter.new { settings with includeTestFiles := tests }
          { options with allowJavaScript := scripts } = .ok filter) ∧
    ∀ settings fault, settings.check = .error fault → settings.sourceGlobs ≠ [] →
      settings.manifestMarkers ≠ [] →
      ∀ options, ∃ glob, SourceFilter.new settings options = .error (.glob glob) := by
  refine ⟨?_,?_⟩
  · rintro disk folder given settings loaded options tests scripts readable builds
    obtain ⟨_,_,checked⟩ := Settings.check_eq_ok_iff.mp (Settings.check_of_load loaded)
    obtain ⟨sources,excluded⟩ := List.forall_mem_append.mp checked
    obtain ⟨always,test⟩ := List.forall_mem_append.mp readable_builtIn
    obtain ⟨includes,excludes⟩ := List.forall_mem_append.mp readable
    refine exists_new_iff.mpr fun set inside => builds set inside ?_
    simp only [patternSets,List.mem_cons,List.not_mem_nil,or_false] at inside
    rcases inside with rfl | rfl | rfl | rfl
    · exact List.forall_mem_map.mpr includes
    · refine List.forall_mem_append.mpr ⟨sources,?_⟩
      cases scripts with
      | false => exact fun _ absent => absurd absent List.not_mem_nil
      | true => exact readable_javaScriptGlobs
    · refine List.forall_mem_append.mpr ⟨List.forall_mem_append.mpr ⟨always,?_⟩,excluded⟩
      cases tests with
      | false => exact test
      | true => exact fun _ absent => absurd absent List.not_mem_nil
    · exact List.forall_mem_map.mpr excludes
  · intro settings fault refused globs markers options
    have unread : ¬∀ text ∈ settings.sourceGlobs ++ settings.excludedPaths, IsReadable false text := by
      intro readable
      cases (Settings.check_eq_ok_iff.mpr ⟨globs,markers,readable⟩).symm.trans refused
    cases made : SourceFilter.new settings options with
    | ok filter =>
      obtain ⟨sources,exclusions⟩ := readSets_of_new made
      have excluded := (List.forall_mem_append.mp (Glob.readable_of_readSet exclusions)).2
      have globs := (List.forall_mem_append.mp (Glob.readable_of_readSet sources)).1
      exact absurd (List.forall_mem_append.mpr ⟨globs,excluded⟩) unread
    | error failed =>
      obtain ⟨glob,rfl⟩ := glob_of_new made
      exact ⟨glob,rfl⟩

theorem exists_readSet {separated : Bool} {texts : List String}
    (known : (readSet separated texts).toOption.isSome = true) :
    ∃ patterns, readSet separated texts = .ok patterns := by
  cases read : readSet separated texts with
  | ok patterns => exact ⟨patterns,rfl⟩
  | error fault => simp [read,Except.toOption] at known

/-- Options with a bare folder and with a folder that is spelled with steps and a separator. -/
def folderOptions : CompilerOptions := ⟨false,["src"],["./lib/"]⟩

theorem new_of_load_awkward :
    Settings.load (Settings.fileDisk (Utf8.encode Settings.awkward.toYaml.toList)) ⟨"/"⟩
      (some ⟨"/codemap.yaml"⟩) = .ok Settings.awkward ∧
    (∃ filter, SourceFilter.new { Settings.awkward with includeTestFiles := false }
      { folderOptions with allowJavaScript := true } = .ok filter) ∧
    ∃ glob, SourceFilter.new { Settings.default with excludedPaths := ["src/["] } .default =
      .error (.glob glob) := by
  have loaded : Settings.load (Settings.fileDisk (Utf8.encode Settings.awkward.toYaml.toList)) ⟨"/"⟩
      (some ⟨"/codemap.yaml"⟩) = .ok Settings.awkward := by
    refine (Settings.read_eq_ok_iff ?_ (Settings.ofYaml?_toYaml _)).mpr (by decide +kernel)
    refine bind_eq_ok_iff.mpr ⟨_,Settings.read_fileDisk _,?_⟩
    rw [Utf8.decode?_encode]
    exact congrArg Except.ok String.ofList_toList
  have sets : ∀ set ∈ patternSets { Settings.awkward with includeTestFiles := false }
      { folderOptions with allowJavaScript := true },
      (readSet set.1 set.2).toOption.isSome = true := by decide +kernel
  refine ⟨loaded,?_,?_⟩
  · refine new_of_load.1 _ _ _ _ loaded folderOptions false true ?_ fun set inside _ =>
      exists_readSet (sets set inside)
    have includes := Glob.readable_of_readSet (exists_readSet (sets (true,_) (.head _)))
    have excludes := Glob.readable_of_readSet
      (exists_readSet (sets (true,_) (.tail _ (.tail _ (.tail _ (.head _))))))
    exact List.forall_mem_append.mpr ⟨List.forall_mem_map.mp includes,List.forall_mem_map.mp excludes⟩
  · exact new_of_load.2 _ (.badGlob ⟨"src/[",.unclosedClass⟩) (by decide +kernel) (by decide) (by decide) _

end SourceFilter

end SourceAtlas
