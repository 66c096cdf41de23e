import SourceAtlas.Proofs.Collection
import SourceAtlas.Proofs.EntryRemoval
import SourceAtlas.Proofs.Walk

/-! Collecting the sources of a project with and without an entry that is none of them. A walk fails at a
link to nothing whatever its name is, and it may come to one entry by several paths. -/
namespace SourceAtlas

namespace Disk

variable {disk : Disk} {enters : String → Bool} {root : Path} {gone : List String}

/-- An entry that is no source: it is neither a folder nor leads to one, and whenever the walk comes to
it, it is a file or leads to one, and is not kept under the path by which the walk comes to it. Other
links lead to the same place without it. -/
structure Needless (disk : Disk) (enters : String → Bool) (root : Path) (kept : Path → Bool)
    (gone : List String) : Prop where
  apart : Apart disk.root gone
  leads : ∀ visits here name target, Meets disk enters root visits here (.link name target) →
    here.location = gone → ∃ found, disk.resolve true here.path = .ok found ∧ found.entry.isFile = true
  dropped : ∀ visits here entry, Meets disk enters root visits here entry → here.location = gone →
    kept here.path = false
  links : ∀ visits here name target, Meets disk enters root visits here (.link name target) →
    here.location ≠ gone →
    (∀ found, disk.resolve true here.path = .ok found → found.entry.isFolder = false) →
      ((disk.without gone).resolve true here.path).map Found.location =
        (disk.resolve true here.path).map Found.location

theorem Needless.walkInner_removed {kept : Path → Bool} (needless : Needless disk enters root kept gone)
    (spare : Nat) {visits : List Visit} {here : Visit} {name : String} {entries : List Entry}
    {child : Entry} (met : Meets disk enters root visits here (.folder name entries))
    (inside : child ∈ entries) (removed : here.location ++ [child.name] = gone) :
    (walkInner disk enters spare visits here child).map (List.filter kept) = .ok [] := by
  have single : child.isFolder = false := needless.apart.single child (removed ▸ met.holds.step inside)
  have there : Meets disk enters root (here :: visits) (here.inner child.name) child :=
    met.inner inside fun folder => absurd (single.symm.trans folder) Bool.false_ne_true
  have dropped : kept (here.inner child.name).path = false := needless.dropped _ _ _ there removed
  have walked : walkInner disk enters spare visits here child = .ok [(here.inner child.name).path] := by
    rw [walkInner,single,Bool.false_and,if_neg Bool.false_ne_true]
    cases child with
    | folder => cases single
    | file name bytes => rw [walkEntry]
    | link name target =>
      obtain ⟨found,resolved,file⟩ := needless.leads _ _ name target there removed
      refine walkEntry_linkedFile resolved ?_
      cases entry : found.entry <;> simp_all [Entry.isFile,Entry.isFolder]
  rw [walked]
  exact congrArg Except.ok (List.filter_cons_of_neg (Bool.eq_false_iff.mp dropped))

-- By the recursion of the walk: into the entries of a folder, or over a link with fewer links to spare.
theorem walkEntry_without {kept : Path → Bool} (needless : Needless disk enters root kept gone)
    (works : disk.WorksInFolder) (spare : Nat) {visits : List Visit} {here : Visit} {entry : Entry}
    (met : Meets disk enters root visits here entry) (elsewhere : here.location ≠ gone) :
    ((disk.without gone).walkEntry enters spare visits here (entry.without gone here.location)).map
        (List.filter kept) =
      (disk.walkEntry enters spare visits here entry).map (List.filter kept) := by
  match entry with
  | .file name bytes => rw [Entry.without_file,walkEntry,walkEntry]
  | .folder name entries =>
    rw [Entry.without_folder,walkEntry_folder,walkEntry_folder,filter_gather,filter_gather]
    apply gather_filterMap
    intro child inside
    unfold Entry.leftIn
    split
    · next removed => exact (needless.walkInner_removed spare met inside removed).symm
    · next stays =>
      rw [Option.elim_some,walkInner,walkInner,Entry.isFolder_without,Entry.name_without]
      split
      · rfl
      · next entered =>
        refine walkEntry_without needless works spare (met.inner inside fun folder => ?_) stays
        simpa [folder] using entered
  | .link name target =>
    rw [Entry.without_link]
    cases resolved : disk.resolve true here.path with
    | error fault =>
      have failed : (disk.without gone).resolve true here.path = .error fault := by
        have same := needless.links _ _ name target met elsewhere (by simp [resolved])
        rw [resolved] at same
        exact map_eq_error_iff.mp same
      rw [walkEntry_unresolved resolved,walkEntry_unresolved failed]
    | ok found =>
      cases folder : found.entry.isFolder with
      | false =>
        have same := needless.links _ _ name target met elsewhere (by simp [resolved,folder])
        rw [resolved] at same
        obtain ⟨left,resolvedLeft,location⟩ := map_eq_ok_iff.mp same
        have single : left.entry.isFolder = false := by
          rw [entry_without resolved resolvedLeft location,Entry.isFolder_without,folder]
        rw [walkEntry_linkedFile resolved folder,walkEntry_linkedFile resolvedLeft single]
      | true =>
        obtain ⟨resolvedLeft,_⟩ := resolve_without needless.apart works resolved folder
        rw [walkEntry_linkedFolder resolved folder,
          walkEntry_linkedFolder resolvedLeft (by rw [Entry.isFolder_without,folder])]
        dsimp only
        cases fresh : loopTo? visits found.location with
        | some around => rfl
        | none =>
          cases spare with
          | zero => rfl
          | succ spare =>
            dsimp only
            split
            · next entered =>
              have inner := met.linked resolved folder fresh entered
              have stays : found.location ≠ gone := by
                obtain ⟨trail,leads,rfl⟩ := exists_of_resolve resolved
                exact needless.apart.location_ne leads folder
              exact walkEntry_without needless works spare inner stays
            · rfl
termination_by (spare,sizeOf entry)

theorem walk_without {kept : Path → Bool} {found : Found} (needless : Needless disk enters root kept gone)
    (works : disk.WorksInFolder) (present : disk.resolve true root = .ok found)
    (folder : found.entry.isFolder = true) :
    ((disk.without gone).walk enters root).map (List.filter kept) =
      (disk.walk enters root).map (List.filter kept) := by
  obtain ⟨_,ending,reached,reachedLeft,elsewhere⟩ := resolve_without needless.apart works present folder
  have spare : (disk.without gone).root.folderCount = disk.root.folderCount :=
    Entry.folderCount_without gone [] disk.root fun names inner there removed =>
      needless.apart.single inner (removed ▸ there)
  rw [walk,walk,reached,reachedLeft,spare]
  exact walkEntry_without needless works _ (.start reached) elsewhere

end Disk

namespace SourceFilter

open Disk

variable {filter : SourceFilter} {disk : Disk} {root file : Path} {gone : List String} {found : Found}

/-- A file is taken if it lies below the root and its relative path is the one of a source. -/
def takes (filter : SourceFilter) (root file : Path) : Bool :=
  match root.below? file with
  | some relative => filter.isSource relative
  | none => false

theorem collect_eq (filter : SourceFilter) (disk : Disk) (root : Path) : filter.collect disk root =
    (((disk.walk filter.enters root).map (List.filter (filter.takes root))).mapError Fault.walk).map
      fun files => files.mergeSort Path.le := by
  rw [collect]
  cases disk.walk filter.enters root <;> rfl

theorem takes_eq_false (rejected : ∀ relative, root.below? file = some relative →
    filter.isSource relative = false) : filter.takes root file = false := by
  unfold takes
  cases below : root.below? file with
  | none => rfl
  | some relative => exact rejected relative below

/-- Collecting gives the same list or the same fault without an entry that neither is a folder nor leads
to one, if wherever the walk comes to it, it is a file or a link to one and the filter takes it for no
source under the path by which the walk comes there, and if the other links that the walk comes to and
that lead to no folder lead to the same place without it. -/
theorem collect_without (filter : SourceFilter) (works : disk.WorksInFolder)
    (present : disk.resolve true root = .ok found) (folder : found.entry.isFolder = true)
    (apart : Apart disk.root gone)
    (files : ∀ visits here name target, disk.Meets filter.enters root visits here (.link name target) →
      here.location = gone →
        ∃ found, disk.resolve true here.path = .ok found ∧ found.entry.isFile = true)
    (rejected : ∀ visits here entry, disk.Meets filter.enters root visits here entry →
      here.location = gone →
        ∀ relative, root.below? here.path = some relative → filter.isSource relative = false)
    (links : ∀ visits here name target, disk.Meets filter.enters root visits here (.link name target) →
      here.location ≠ gone →
      (∀ found, disk.resolve true here.path = .ok found → found.entry.isFolder = false) →
        ((disk.without gone).resolve true here.path).map Found.location =
          (disk.resolve true here.path).map Found.location) :
    filter.collect (disk.without gone) root = filter.collect disk root := by
  have needless : Needless disk filter.enters root (filter.takes root) gone :=
    ⟨apart,files,fun visits here entry met there => takes_eq_false (rejected visits here entry met there),
      links⟩
  rw [collect_eq,collect_eq,walk_without needless works present folder]

theorem collect_of_walk {files kept : List Path} (walked : disk.walk filter.enters root = .ok files)
    (taken : files.filter (filter.takes root) = kept) (few : kept.length ≤ 1) :
    filter.collect disk root = .ok kept := by
  have sorted : kept.mergeSort Path.le = kept := by
    match kept,few with
    | [],_ => exact List.mergeSort_nil
    | [file],_ => exact List.mergeSort_singleton file
  rw [collect_eq,walked]
  change Except.ok ((files.filter _).mergeSort Path.le) = _
  rw [taken,sorted]

theorem collect_of_fault {fault : WalkFault} (failed : disk.walk filter.enters root = .error fault) :
    filter.collect disk root = .error (.walk fault) := by
  rw [collect_eq,failed]
  rfl

/-- A source beside a link to nothing. -/
def danglingDisk : Disk := ⟨.folder "" [.file "a.ts" [],.link "c.md" "gone"],[]⟩

theorem collect_dangling : defaultFilter.collect danglingDisk ⟨"/"⟩ =
      .error (.walk (.unreadable ⟨"/c.md"⟩ .notFound)) ∧
    defaultFilter.collect (danglingDisk.without ["c.md"]) ⟨"/"⟩ = .ok [⟨"/a.ts"⟩] := by
  constructor
  · have failed : danglingDisk.resolve true ⟨"/c.md"⟩ = .error .notFound := by
      have missing : Entry.find? (Trail.entry danglingDisk.root []) "gone" = none := rfl
      rw [resolve_topLink rfl rfl rfl (by decide : partsOf "/c.md" = ["","c.md"]) (by decide) rfl,
        show partsOf "gone" = ["gone"] by decide,walkParts_missing (by decide) missing]
      rfl
    obtain ⟨spare,walked⟩ := @walk_top danglingDisk _ _ defaultFilter.enters rfl
    rw [gather_cons,gather_cons,walkInner_file,walkInner_link,walkEntry_unresolved failed] at walked
    exact collect_of_fault walked
  · have top : (danglingDisk.without ["c.md"]).root =
        .folder "" (["a.ts"].map fun name => .file name []) := by
      simp [without,danglingDisk,Entry.without_folder,Entry.leftIn,Entry.name]
    obtain ⟨spare,walked⟩ := walk_top defaultFilter.enters top
    rw [gather_files] at walked
    exact collect_of_walk walked (by decide +kernel) (by decide)

/-- A source that is a link to a file of another kind. -/
def targetDisk : Disk := ⟨.folder "" [.link "a.ts" "b.md",.file "b.md" []],[]⟩

theorem collect_target : defaultFilter.collect targetDisk ⟨"/"⟩ = .ok [⟨"/a.ts"⟩] ∧
    defaultFilter.collect (targetDisk.without ["b.md"]) ⟨"/"⟩ =
      .error (.walk (.unreadable ⟨"/a.ts"⟩ .notFound)) := by
  have split : partsOf "/a.ts" = ["","a.ts"] := by decide
  have target : partsOf "b.md" = ["b.md"] := by decide
  constructor
  · have file : Entry.find? (Trail.entry targetDisk.root []) "b.md" = some (.file "b.md" []) := rfl
    have resolved : targetDisk.resolve true ⟨"/a.ts"⟩ = .ok ⟨["b.md"],.file "b.md" []⟩ := by
      rw [resolve_topLink rfl rfl rfl split (by decide) rfl,target,
        (Way.file 39 (by decide) file).walkParts]
      rfl
    obtain ⟨spare,walked⟩ := @walk_top targetDisk _ _ defaultFilter.enters rfl
    rw [gather_cons,gather_cons,walkInner_file,walkInner_link,walkEntry_linkedFile resolved rfl] at walked
    have both : targetDisk.walk defaultFilter.enters ⟨"/"⟩ = .ok [⟨"/a.ts"⟩,⟨"/b.md"⟩] := walked
    exact collect_of_walk both (by decide +kernel) (by decide)
  · have top : (targetDisk.without ["b.md"]).root = .folder "" [.link "a.ts" "b.md"] := by
      simp [without,targetDisk,Entry.without_folder,Entry.leftIn,Entry.name]
    have missing : Entry.find? (Trail.entry (targetDisk.without ["b.md"]).root []) "b.md" = none := by
      rw [top]
      rfl
    have failed : (targetDisk.without ["b.md"]).resolve true ⟨"/a.ts"⟩ = .error .notFound := by
      rw [resolve_topLink rfl rfl rfl split (by decide) (by rw [top]; rfl),target,
        walkParts_missing (by decide) missing]
      rfl
    obtain ⟨spare,walked⟩ := walk_top defaultFilter.enters top
    rw [gather_cons,walkInner_link,walkEntry_unresolved failed] at walked
    exact collect_of_fault walked

/-- A folder that is also reached over a link. -/
def aliasDisk (names : List String) : Disk :=
  ⟨.folder "" [.folder "src" (names.map fun name => .file name []),.link "lib" "src"],[]⟩

def withoutSrc : CompilerOptions := { CompilerOptions.default with excludePatterns := ["src"] }

def aliasFilter : SourceFilter :=
  (SourceFilter.new .default withoutSrc).toOption.getD ⟨[],[],[],none,[]⟩

theorem walk_alias (names : List String) : (aliasDisk names).walk aliasFilter.enters ⟨"/"⟩ =
    .ok (names.map (fun name => Path.join ⟨"/src"⟩ ⟨name⟩) ++
      names.map fun name => Path.join ⟨"/lib"⟩ ⟨name⟩) := by
  have folder : Entry.find? (Trail.entry (aliasDisk names).root []) "src" =
      some (.folder "src" (names.map fun name => .file name [])) := rfl
  have resolved : (aliasDisk names).resolve true ⟨"/lib"⟩ =
      .ok ⟨["src"],.folder "src" (names.map fun name => .file name [])⟩ := by
    rw [resolve_topLink rfl rfl rfl (by decide : partsOf "/lib" = ["","lib"]) (by decide) rfl,
      show partsOf "src" = ["src"] by decide,(Way.folder (by decide) folder (.done 39 _)).walkParts]
    rfl
  obtain ⟨spare,walked⟩ := @walk_top (aliasDisk names) _ _ aliasFilter.enters rfl
  rw [walked,gather_cons,gather_cons,walkInner_folder (by decide +kernel),gather_files,walkInner_link,
    walkEntry_linkedFolder resolved rfl]
  have entered : aliasFilter.enters "lib" = true := by decide +kernel
  have fresh : loopTo? [⟨[],⟨"/"⟩⟩] ["src"] = none := by decide
  rw [fresh]
  dsimp only
  rw [if_pos (.inr entered),walkEntry_folder,gather_files]
  exact congrArg Except.ok (congrArg _ (List.append_nil _))

theorem collect_alias : aliasFilter.collect (aliasDisk ["x.ts"]) ⟨"/"⟩ = .ok [⟨"/lib/x.ts"⟩] ∧
    aliasFilter.collect ((aliasDisk ["x.ts"]).without ["src","x.ts"]) ⟨"/"⟩ = .ok [] := by
  have bare : (aliasDisk ["x.ts"]).without ["src","x.ts"] = aliasDisk [] := by
    simp [without,aliasDisk,Entry.without_folder,Entry.leftIn,Entry.name]
  rw [bare]
  exact ⟨collect_of_walk (walk_alias ["x.ts"]) (by decide +kernel) (by decide),
    collect_of_walk (walk_alias []) (by decide +kernel) (by decide)⟩

theorem new_withoutSrc : SourceFilter.new .default withoutSrc = .ok aliasFilter := by
  have accepted : (SourceFilter.new .default withoutSrc).toOption.isSome = true := by decide +kernel
  unfold aliasFilter
  cases outcome : SourceFilter.new .default withoutSrc with
  | ok filter => rfl
  | error fault => simp [outcome,Except.toOption] at accepted

/-- An entry of which the relative path is no source disturbs the collecting in three ways: as a link to
nothing, as what a source leads to, and as a source under another path. -/
theorem collect_disturbed :
    (SourceFilter.new .default .default = .ok defaultFilter ∧ defaultFilter.isSource ⟨"c.md"⟩ = false ∧
      defaultFilter.collect danglingDisk ⟨"/"⟩ = .error (.walk (.unreadable ⟨"/c.md"⟩ .notFound)) ∧
      defaultFilter.collect (danglingDisk.without ["c.md"]) ⟨"/"⟩ = .ok [⟨"/a.ts"⟩]) ∧
    (defaultFilter.isSource ⟨"b.md"⟩ = false ∧
      defaultFilter.collect targetDisk ⟨"/"⟩ = .ok [⟨"/a.ts"⟩] ∧
      defaultFilter.collect (targetDisk.without ["b.md"]) ⟨"/"⟩ =
        .error (.walk (.unreadable ⟨"/a.ts"⟩ .notFound))) ∧
    SourceFilter.new .default withoutSrc = .ok aliasFilter ∧ aliasFilter.isSource ⟨"src/x.ts"⟩ = false ∧
      aliasFilter.collect (aliasDisk ["x.ts"]) ⟨"/"⟩ = .ok [⟨"/lib/x.ts"⟩] ∧
      aliasFilter.collect ((aliasDisk ["x.ts"]).without ["src","x.ts"]) ⟨"/"⟩ = .ok [] :=
  ⟨⟨new_default,by decide +kernel,collect_dangling⟩,⟨by decide +kernel,collect_target⟩,new_withoutSrc,
    by decide +kernel,collect_alias⟩

/-- A file with two links to it. -/
def remarkDisk : Disk := ⟨.folder "" [.file "a.ts" [],.link "b.md" "a.ts",.link "c.ts" "a.ts"],[]⟩

theorem resolve_toSource {path : Path} (name : String) (checked : checkText path = .ok ())
    (short : checkLength path = .ok ()) (absolute : path.isAbsolute = true)
    (split : partsOf path.text = ["",name]) (step : IsStep name)
    (link : Entry.find? disk.root name = some (.link name "a.ts"))
    (file : Entry.find? disk.root "a.ts" = some (.file "a.ts" [])) :
    disk.resolve true path = .ok ⟨["a.ts"],.file "a.ts" []⟩ := by
  have there : Entry.find? (Trail.entry disk.root []) "a.ts" = some (.file "a.ts" []) := file
  rw [resolve_topLink checked short absolute split step link,show partsOf "a.ts" = ["a.ts"] by decide,
    (Way.file 39 (by decide) there).walkParts]
  rfl

theorem resolve_remark {path : Path} (known : path = ⟨"/b.md"⟩ ∨ path = ⟨"/c.ts"⟩) :
    remarkDisk.resolve true path = .ok ⟨["a.ts"],.file "a.ts" []⟩ := by
  rcases known with rfl | rfl
  · exact resolve_toSource "b.md" rfl rfl rfl (by decide) (by decide) rfl rfl
  · exact resolve_toSource "c.ts" rfl rfl rfl (by decide) (by decide) rfl rfl

theorem meets_remark {enters : String → Bool} {visits : List Visit} {here : Visit} {entry : Entry}
    (met : remarkDisk.Meets enters ⟨"/"⟩ visits here entry) :
    here = ⟨[],⟨"/"⟩⟩ ∧ entry = remarkDisk.root ∨ here = ⟨["a.ts"],⟨"/a.ts"⟩⟩ ∧ entry = .file "a.ts" [] ∨
      here = ⟨["b.md"],⟨"/b.md"⟩⟩ ∧ entry = .link "b.md" "a.ts" ∨
        here = ⟨["c.ts"],⟨"/c.ts"⟩⟩ ∧ entry = .link "c.ts" "a.ts" := by
  induction met with
  | start resolved =>
    rw [resolve_top] at resolved
    cases resolved
    exact .inl ⟨rfl,rfl⟩
  | inner _ inside _ ih =>
    rcases ih with ⟨rfl,same⟩ | ⟨_,other⟩ | ⟨_,other⟩ | ⟨_,other⟩
    · cases same
      simp only [List.mem_cons,List.not_mem_nil,or_false] at inside
      rcases inside with rfl | rfl | rfl
      · exact .inr (.inl ⟨rfl,rfl⟩)
      · exact .inr (.inr (.inl ⟨rfl,rfl⟩))
      · exact .inr (.inr (.inr ⟨rfl,rfl⟩))
    all_goals cases other
  | linked _ resolved folder _ _ ih =>
    rcases ih with ⟨_,other⟩ | ⟨_,other⟩ | ⟨rfl,_⟩ | ⟨rfl,_⟩
    · cases other
    · cases other
    · rw [resolve_remark (.inl rfl)] at resolved
      cases resolved
      cases folder
    · rw [resolve_remark (.inr rfl)] at resolved
      cases resolved
      cases folder

theorem apart_remark : Apart remarkDisk.root ["b.md"] := by
  constructor
  · intro entry there
    obtain ⟨child,inside,_,there⟩ := there.exists_of_cons
    cases there
    simp only [remarkDisk,Entry.entries,List.mem_cons,List.not_mem_nil,or_false] at inside
    rcases inside with rfl | rfl | rfl <;> rfl
  · intro name target trail reached known walked
    cases known
    have file : Entry.find? (Trail.entry remarkDisk.root []) "a.ts" = some (.file "a.ts" []) := rfl
    rw [show partsOf "a.ts" = ["a.ts"] by decide,show startFrom [] "a.ts" = [] by decide,
      (Way.file linkLimit (by decide) file).walkParts] at walked
    cases walked
    rfl

theorem collect_without_remark :
    defaultFilter.collect (remarkDisk.without ["b.md"]) ⟨"/"⟩ = defaultFilter.collect remarkDisk ⟨"/"⟩ := by
  have works : remarkDisk.WorksInFolder := by
    intro trail known
    cases known
    rfl
  have left : (remarkDisk.without ["b.md"]).root = .folder "" [.file "a.ts" [],.link "c.ts" "a.ts"] := by
    simp [without,remarkDisk,Entry.without_folder,Entry.leftIn,Entry.name]
  refine collect_without defaultFilter works (resolve_top ..) rfl apart_remark ?_ ?_ ?_
  · intro visits here name target met there
    rcases meets_remark met with ⟨_,other⟩ | ⟨_,other⟩ | ⟨rfl,same⟩ | ⟨rfl,_⟩
    · cases other
    · cases other
    · cases same
      exact ⟨_,resolve_remark (.inl rfl),rfl⟩
    · simp at there
  · intro visits here entry met there relative below
    rcases meets_remark met with ⟨rfl,_⟩ | ⟨rfl,_⟩ | ⟨rfl,_⟩ | ⟨rfl,_⟩
    · cases there
    · simp at there
    · have known : (Path.mk "/").below? ⟨"/b.md"⟩ = some ⟨"b.md"⟩ := by decide
      cases below.symm.trans known
      decide +kernel
    · simp at there
  · intro visits here name target met elsewhere _
    rcases meets_remark met with ⟨_,other⟩ | ⟨_,other⟩ | ⟨rfl,_⟩ | ⟨rfl,same⟩
    · cases other
    · cases other
    · exact absurd rfl elsewhere
    · cases same
      rw [resolve_remark (.inr rfl),resolve_toSource "c.ts" rfl rfl rfl (by decide) (by decide)
        (by rw [left]; rfl) (by rw [left]; rfl)]

end SourceFilter

end SourceAtlas
