import SourceAtlas.Proofs.FolderTree
import SourceAtlas.Proofs.PathOrder
import SourceAtlas.SourceFilter

/-! The source files of a folder tree: exactly the files that the filter takes, outside hidden and
excluded folders, in strictly increasing order. -/
namespace SourceAtlas.SourceFilter

open Disk

theorem new_excludedFolders {settings : Settings} {options : CompilerOptions} {filter : SourceFilter}
    (chosen : SourceFilter.new settings options = .ok filter) :
    filter.excludedFolders = settings.excludedFolders := by
  rw [SourceFilter.new,mapError_eq_ok_iff] at chosen
  dsimp only at chosen
  split at chosen
  · simp only [bind_eq_ok_iff] at chosen
    obtain ⟨_,_,_,_,_,_,_,_,returned⟩ := chosen
    exact Except.ok.inj returned ▸ rfl
  · simp only [bind_eq_ok_iff] at chosen
    obtain ⟨_,_,_,_,_,_,_,_,returned⟩ := chosen
    exact Except.ok.inj returned ▸ rfl

theorem enters_iff {filter : SourceFilter} {name : String} :
    filter.enters name = true ↔ name.toList.head? ≠ some '.' ∧ name ∉ filter.excludedFolders := by
  simp [enters]

theorem below?_descend {names : List String} (root : Path) (valid : ∀ name ∈ names, Component.IsName name) :
    ∃ relative, root.below? (root.descend names) = some relative ∧
      relative.components = names.map .name := by
  have whole := root.components_descend valid
  have proper : Component.Proper (names.map .name) :=
    .suffix (whole ▸ (root.descend names).components_proper)
  exact ⟨_,(Path.below?_eq_some whole).1,Path.components_keyOf proper⟩

variable {settings : Settings} {options : CompilerOptions} {filter : SourceFilter} {disk : Disk}
  {root : Path} {found : Found}

theorem listing_components_nodup (plain : found.entry.Plain) (enters : String → Bool) :
    (((found.entry.listing enters).map root.descend).map Path.components).Nodup := by
  rw [List.map_map]
  apply List.Nodup.map_on _ (Entry.listing_nodup plain)
  intro first insideFirst second insideSecond same
  have validFirst := ((Entry.mem_listing plain).mp insideFirst).1.isName plain
  have validSecond := ((Entry.mem_listing plain).mp insideSecond).1.isName plain
  have equal : root.components ++ first.map .name = root.components ++ second.map Component.name := by
    rw [← root.components_descend validFirst,← root.components_descend validSecond]
    exact same
  exact List.map_injective_iff.mpr (fun _ _ => Component.name.inj) (List.append_cancel_left equal)

/-- Collecting finds all source files of a folder tree without links that no hidden or excluded folder
holds, and nothing else. The root may have any name, and may be reached over links. -/
theorem collect_exact (chosen : SourceFilter.new settings options = .ok filter)
    (present : disk.resolve true root = .ok found) (plain : found.entry.Plain) :
    ∃ files, filter.collect disk root = .ok files ∧
      (∀ path, path ∈ files ↔ ∃ names relative, found.entry.HoldsFile names ∧
        path = root.descend names ∧ root.below? path = some relative ∧
        relative.components = names.map .name ∧ filter.isSource relative = true ∧
        ∀ folder ∈ names.dropLast,
          folder.toList.head? ≠ some '.' ∧ folder ∉ settings.excludedFolders) ∧
      files.Pairwise fun a b => Component.orderAll a.components b.components = .lt := by
  have walked : disk.walk filter.enters root =
      .ok ((found.entry.listing filter.enters).map root.descend) := walk_of_plain present plain
  refine ⟨_,bind_eq_ok_iff.mpr ⟨_,by rw [walked]; rfl,rfl⟩,?_,?_⟩
  · intro path
    rw [List.mem_mergeSort,List.mem_filter,List.mem_map]
    constructor
    · rintro ⟨⟨names,listed,rfl⟩,taken⟩
      obtain ⟨holds,folders⟩ := (Entry.mem_listing plain).mp listed
      obtain ⟨relative,below,spelled⟩ := below?_descend root (holds.isName plain)
      rw [below] at taken
      refine ⟨names,relative,holds,rfl,below,spelled,taken,fun folder inside => ?_⟩
      rw [← new_excludedFolders chosen]
      exact enters_iff.mp (folders folder inside)
    · rintro ⟨names,relative,holds,rfl,below,_,taken,folders⟩
      refine ⟨⟨names,(Entry.mem_listing plain).mpr ⟨holds,fun folder inside => ?_⟩,rfl⟩,?_⟩
      · rw [enters_iff,new_excludedFolders chosen]
        exact folders folder inside
      · rw [below]
        exact taken
  · apply Path.mergeSort_increasing
    exact (listing_components_nodup plain filter.enters).sublist (List.filter_sublist.map _)

def hiddenTree : Entry :=
  .folder "p" [.folder ".git" [.file "a.ts" []],.folder "src" [.file ".b.ts" []]]

def hiddenDisk : Disk := ⟨.folder "" [hiddenTree],[]⟩

def defaultFilter : SourceFilter :=
  (SourceFilter.new .default .default).toOption.getD ⟨[],[],[],none,[]⟩

theorem new_default : SourceFilter.new .default .default = .ok defaultFilter := by
  have accepted : (SourceFilter.new .default .default).toOption.isSome = true := by decide +kernel
  unfold defaultFilter
  cases outcome : SourceFilter.new .default .default with
  | ok filter => rfl
  | error fault => simp [outcome,Except.toOption] at accepted

theorem hiddenTree_plain : hiddenTree.Plain := by
  have git : (Entry.folder ".git" [.file "a.ts" []]).Plain :=
    .folder _ _ (by decide) (by decide) (List.forall_mem_singleton.mpr (.file _ _))
  have source : (Entry.folder "src" [.file ".b.ts" []]).Plain :=
    .folder _ _ (by decide) (by decide) (List.forall_mem_singleton.mpr (.file _ _))
  exact .folder _ _ (by decide) (by decide)
    (List.forall_mem_cons.mpr ⟨git,List.forall_mem_singleton.mpr source⟩)

theorem resolve_hiddenDisk : hiddenDisk.resolve true ⟨"/p"⟩ = .ok ⟨["p"],hiddenTree⟩ := by
  have parts : partsOf "/p" = ["","p"] := by decide
  have walked : walkParts hiddenDisk.root true linkLimit [] ["","p"] = .ok [hiddenTree] := by
    have found : Entry.find? (Trail.entry hiddenDisk.root []) "p" = some hiddenTree := rfl
    rw [walkParts,if_pos (.inl rfl),walkParts,if_neg (by decide),if_neg (by decide),
      if_neg (by decide),found]
    exact walkParts.eq_1 ..
  have follows : hiddenDisk.follow true ⟨"/p"⟩ = .ok ⟨["p"],hiddenTree⟩ := by
    apply bind_eq_ok_iff.mpr
    refine ⟨[],rfl,bind_eq_ok_iff.mpr ⟨[hiddenTree],?_,rfl⟩⟩
    rw [parts]
    exact walked
  exact bind_eq_ok_iff.mpr ⟨(),rfl,bind_eq_ok_iff.mpr ⟨(),rfl,follows⟩⟩

theorem collect_exact_hidden : ∃ files, defaultFilter.collect hiddenDisk ⟨"/p"⟩ = .ok files ∧
    ⟨"/p/src/.b.ts"⟩ ∈ files ∧ ⟨"/p/.git/a.ts"⟩ ∉ files := by
  obtain ⟨files,collected,members,_⟩ := collect_exact new_default resolve_hiddenDisk hiddenTree_plain
  have file : (Entry.file ".b.ts" []).HoldsFile [] := .here ..
  have folder : (Entry.folder "src" [.file ".b.ts" []]).HoldsFile [".b.ts"] :=
    .deeper "src" List.mem_cons_self file
  have holds : hiddenTree.HoldsFile ["src",".b.ts"] := .deeper "p" (.tail _ (.head _)) folder
  refine ⟨files,collected,(members _).mpr ?_,fun member => ?_⟩
  · exact ⟨["src",".b.ts"],⟨"src/.b.ts"⟩,holds,rfl,by decide,by decide,by decide +kernel,by decide⟩
  · obtain ⟨names,relative,_,_,below,spelled,_,folders⟩ := (members _).mp member
    have rest : (Path.mk "/p").below? ⟨"/p/.git/a.ts"⟩ = some ⟨".git/a.ts"⟩ := by decide
    cases Option.some.inj (below.symm.trans rest)
    have git : names.map Component.name = [".git","a.ts"].map Component.name :=
      spelled.symm.trans (by decide)
    cases List.map_injective_iff.mpr (fun _ _ => Component.name.inj) git
    exact (folders ".git" (.head _)).1 (by decide)

end SourceAtlas.SourceFilter
