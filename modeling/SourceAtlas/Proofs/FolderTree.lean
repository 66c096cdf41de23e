import Mathlib.Data.List.Nodup
import SourceAtlas.Disk.Walk
import SourceAtlas.Proofs.FirstFault
import SourceAtlas.Proofs.PathKey

/-! What a walk finds in a folder tree without links: the files that lie in entered folders only, each
once. -/
namespace SourceAtlas

def Path.descend (path : Path) (names : List String) : Path :=
  names.foldl (fun path name => path.join ⟨name⟩) path

theorem Path.components_descend {names : List String} (path : Path)
    (valid : ∀ name ∈ names, Component.IsName name) :
    (path.descend names).components = path.components ++ names.map .name := by
  induction names generalizing path with
  | nil => simp [descend]
  | cons name names ih =>
    obtain ⟨here,later⟩ := List.forall_mem_cons.mp valid
    rw [descend,List.foldl_cons,← descend,ih (path.join ⟨name⟩) later,components_join path here,
      List.append_assoc,List.map_cons,List.singleton_append]

namespace Disk

namespace Entry

/-- Files and folders as a disk holds them, without links: names have neither separators nor dots
only, and no two entries of a folder share one. -/
inductive Plain : Entry → Prop
  | file (name : String) (bytes : List UInt8) : Plain (.file name bytes)
  | folder (name : String) (entries : List Entry)
    (names : ∀ child ∈ entries, Component.IsName child.name)
    (distinct : (entries.map Entry.name).Nodup) (inner : ∀ child ∈ entries, Plain child) :
    Plain (.folder name entries)

/-- There is a file at the end of the given names. -/
inductive HoldsFile : Entry → List String → Prop
  | here (name : String) (bytes : List UInt8) : HoldsFile (.file name bytes) []
  | deeper (name : String) {entries : List Entry} {child : Entry} {names : List String}
    (member : child ∈ entries) (there : HoldsFile child names) :
    HoldsFile (.folder name entries) (child.name :: names)

theorem HoldsFile.isFolder_iff {entry : Entry} {names : List String} (holds : entry.HoldsFile names) :
    entry.isFolder = true ↔ names ≠ [] := by
  cases holds with
  | here => simp [isFolder]
  | deeper => simp [isFolder]

theorem HoldsFile.isName {entry : Entry} {names : List String} (holds : entry.HoldsFile names)
    (plain : entry.Plain) : ∀ name ∈ names, Component.IsName name := by
  induction holds with
  | here => exact fun _ member => absurd member List.not_mem_nil
  | deeper _ member _ ih =>
    cases plain with
    | folder _ _ valid _ inner => exact List.forall_mem_cons.mpr ⟨valid _ member,ih (inner _ member)⟩

/-- The names that lead to the files in entered folders. -/
def listing (enters : String → Bool) : Entry → List (List String)
  | file .. => [[]]
  | link .. => []
  | folder _ entries =>
    entries.attach.flatMap fun child =>
      if child.1.isFolder && !enters child.1.name then []
      else (child.1.listing enters).map (child.1.name :: ·)
decreasing_by
  have := List.sizeOf_lt_of_mem child.2
  simp
  omega

variable {enters : String → Bool} {entry : Entry}

def listingIn (enters : String → Bool) (child : Entry) : List (List String) :=
  if child.isFolder && !enters child.name then [] else (child.listing enters).map (child.name :: ·)

theorem listing_folder (enters : String → Bool) (name : String) (entries : List Entry) :
    listing enters (.folder name entries) = entries.flatMap (listingIn enters) := by
  rw [listing]
  conv => rhs; rw [← List.attach_map_subtype_val entries,List.flatMap_map]
  rfl

theorem mem_listingIn {child : Entry} {names : List String} : names ∈ listingIn enters child ↔
    (child.isFolder = true → enters child.name = true) ∧
      ∃ rest ∈ child.listing enters, child.name :: rest = names := by
  unfold listingIn
  split
  · next skipped =>
    rw [Bool.and_eq_true,Bool.not_eq_true'] at skipped
    simp [skipped]
  · next entered =>
    rw [Bool.and_eq_true,Bool.not_eq_true',not_and,Bool.not_eq_false] at entered
    rw [List.mem_map]
    exact (and_iff_right entered).symm

theorem mem_listing {names : List String} (plain : entry.Plain) :
    names ∈ entry.listing enters ↔
      entry.HoldsFile names ∧ ∀ folder ∈ names.dropLast, enters folder = true := by
  induction plain generalizing names with
  | file name bytes =>
    rw [listing,List.mem_singleton]
    constructor
    · rintro rfl
      exact ⟨.here name bytes,by simp⟩
    · rintro ⟨holds,_⟩
      cases holds
      rfl
  | folder name entries valid distinct inner ih =>
    rw [listing_folder,List.mem_flatMap]
    constructor
    · rintro ⟨child,member,listed⟩
      obtain ⟨entered,rest,found,rfl⟩ := mem_listingIn.mp listed
      obtain ⟨holds,folders⟩ := (ih child member).mp found
      refine ⟨.deeper name member holds,?_⟩
      cases rest with
      | nil => simp
      | cons next rest =>
        have folder : child.isFolder = true := holds.isFolder_iff.mpr (by simp)
        rw [List.dropLast_cons_cons]
        exact List.forall_mem_cons.mpr ⟨entered folder,folders⟩
    · rintro ⟨holds,folders⟩
      cases holds with
      | @deeper _ _ child rest member there =>
        refine ⟨child,member,mem_listingIn.mpr ⟨?_,rest,?_,rfl⟩⟩
        · intro folder
          obtain ⟨next,rest,rfl⟩ := List.exists_cons_of_ne_nil (there.isFolder_iff.mp folder)
          exact folders child.name List.mem_cons_self
        · apply (ih child member).mpr
          refine ⟨there,fun folder deep => folders folder ?_⟩
          cases rest with
          | nil => simp at deep
          | cons next rest => exact List.mem_cons_of_mem _ deep

theorem listing_nodup (plain : entry.Plain) : (entry.listing enters).Nodup := by
  induction plain with
  | file => simp [listing]
  | folder name entries valid distinct inner ih =>
    rw [listing_folder,List.nodup_flatMap]
    constructor
    · intro child member
      unfold listingIn
      split
      · exact List.nodup_nil
      · exact (ih child member).map List.cons_injective
    · apply (List.pairwise_map.mp distinct).imp
      intro a b apart names first second
      obtain ⟨_,_,_,rfl⟩ := mem_listingIn.mp first
      obtain ⟨_,_,_,same⟩ := mem_listingIn.mp second
      exact apart (List.cons.inj same).1.symm

end Entry

-- The walk below an entry

variable {disk : Disk} {enters : String → Bool}

theorem walkEntry_of_plain {entry : Entry} (plain : entry.Plain) (spare : Nat) (visits : List Visit)
    (here : Visit) : disk.walkEntry enters spare visits here entry =
      .ok ((entry.listing enters).map here.path.descend) := by
  induction plain generalizing visits here with
  | file name bytes => rw [walkEntry,Entry.listing]; rfl
  | folder name entries valid distinct inner ih =>
    rw [walkEntry]
    apply bind_eq_ok_iff.mpr
    refine ⟨entries.attach.map fun child => (Entry.listingIn enters child.1).map here.path.descend,
      mapM_eq_ok_map ?_,?_⟩
    · rintro ⟨child,member⟩ _
      unfold Entry.listingIn
      split
      · rfl
      · rw [ih child member,List.map_map]
        rfl
    · rw [Entry.listing_folder,List.map_flatMap,← List.flatMap_def]
      conv => rhs; rw [← List.attach_map_subtype_val entries,List.flatMap_map]
      rfl

-- The way to the entry

def Rooted (root : Entry) (trail : Trail) : Prop := trail = [] ∨ root.isFolder = true

theorem Rooted.of_find? {root entry : Entry} {trail : Trail} {name : String}
    (rooted : Rooted root trail) (found : Entry.find? (trail.entry root) name = some entry) :
    root.isFolder = true := by
  rcases rooted with rfl | folder
  · cases root with
    | folder => rfl
    | file => simp [Trail.entry,Entry.find?,Entry.entries] at found
    | link => simp [Trail.entry,Entry.find?,Entry.entries] at found
  · exact folder

theorem Rooted.tail {root : Entry} {trail : Trail} (rooted : Rooted root trail) :
    Rooted root trail.tail := by
  rcases rooted with rfl | folder
  · exact .inl rfl
  · exact .inr folder

theorem Rooted.startFrom {root : Entry} {trail : Trail} (rooted : Rooted root trail) (text : String) :
    Rooted root (startFrom trail text) := by
  unfold Disk.startFrom
  split
  · exact .inl rfl
  · exact rooted

/-- Not following a link at the end of a path makes a difference only if the path leads to that link. -/
theorem walkParts_last {root : Entry} {limit : Nat} {trail reached : Trail} {parts : List String}
    (rooted : Rooted root trail) (followed : walkParts root true limit trail parts = .ok reached) :
    walkParts root false limit trail parts = .ok reached ∨ root.isFolder = true ∧
      ∃ name target rest, walkParts root false limit trail parts = .ok (.link name target :: rest) := by
  -- Both ways take the same steps up to a link that is the last part.
  fun_induction walkParts root true limit trail parts with
  | case1 limit trail =>
    rw [walkParts]
    exact .inl followed
  | case2 limit trail part rest filler ih =>
    rw [walkParts,if_pos filler]
    exact ih rooted followed
  | case3 limit trail rest solid ih =>
    rw [walkParts,if_neg solid,if_pos rfl]
    exact ih rooted.tail followed
  | case4 => cases followed
  | case5 => cases followed
  | case6 limit trail part rest solid notUp short name entries found ih =>
    rw [walkParts,if_neg solid,if_neg notUp,if_neg short,found]
    exact ih (.inr (rooted.of_find? found)) followed
  | case7 limit trail part solid notUp short name bytes found =>
    rw [walkParts,if_neg solid,if_neg notUp,if_neg short,found]
    exact .inl followed
  | case8 => cases followed
  | case9 _ _ _ _ _ _ _ _ _ _ last => exact absurd last.2 (by decide)
  | case10 => cases followed
  | case11 trail part rest solid notUp short name target found more limit ih =>
    rw [walkParts,if_neg solid,if_neg notUp,if_neg short,found]
    by_cases ending : rest = []
    · exact .inr ⟨rooted.of_find? found,name,target,trail,if_pos ⟨ending,rfl⟩⟩
    · have onward : ¬(rest = [] ∧ (!false) = true) := fun last => ending last.1
      simp only [if_neg onward]
      exact ih (rooted.startFrom target) followed

theorem rooted_of_foldlM {root : Entry} {location : List String} {start trail : Trail}
    (rooted : Rooted root start)
    (found : location.foldlM (fun (trail : Trail) name =>
      (Entry.find? (trail.entry root) name).map (· :: trail)) start = some trail) :
    Rooted root trail := by
  induction location generalizing start with
  | nil => exact Option.some.inj found ▸ rooted
  | cons name location ih =>
    rw [List.foldlM_cons] at found
    obtain ⟨next,step,later⟩ := Option.bind_eq_some_iff.mp found
    obtain ⟨entry,here,rfl⟩ := Option.map_eq_some_iff.mp step
    exact ih (.inr (rooted.of_find? here)) later

theorem rooted_startOf {path : Path} {start : Trail} (started : disk.startOf path = .ok start) :
    Rooted disk.root start := by
  unfold startOf at started
  split at started
  · exact .inl (Except.ok.inj started).symm
  · cases found : trailTo? disk.root disk.workingDirectory with
    | none => simp [found] at started
    | some trail =>
      simp only [found,Option.elim_some] at started
      exact Except.ok.inj started ▸ rooted_of_foldlM (.inl rfl) found

theorem resolve_last {path : Path} {found : Found} (resolved : disk.resolve true path = .ok found) :
    disk.resolve false path = .ok found ∨ disk.root.isFolder = true ∧
      ∃ location name target, disk.resolve false path = .ok ⟨location,.link name target⟩ := by
  obtain ⟨_,checked,resolved⟩ := bind_eq_ok_iff.mp resolved
  obtain ⟨_,short,resolved⟩ := bind_eq_ok_iff.mp resolved
  obtain ⟨start,started,resolved⟩ := bind_eq_ok_iff.mp resolved
  obtain ⟨trail,followed,returned⟩ := bind_eq_ok_iff.mp resolved
  have unfolded {reached : Trail}
      (unfollowed : walkParts disk.root false linkLimit start (partsOf path.text) = .ok reached) :
      disk.resolve false path = .ok ⟨reached.location,reached.entry disk.root⟩ := by
    have follows : disk.follow false path = .ok ⟨reached.location,reached.entry disk.root⟩ :=
      bind_eq_ok_iff.mpr ⟨start,started,bind_eq_ok_iff.mpr ⟨reached,unfollowed,rfl⟩⟩
    exact bind_eq_ok_iff.mpr ⟨_,checked,bind_eq_ok_iff.mpr ⟨_,short,follows⟩⟩
  rcases walkParts_last (rooted_startOf started) followed with same | ⟨folder,name,target,rest,link⟩
  · exact .inl ((unfolded same).trans returned)
  · exact .inr ⟨folder,_,name,target,unfolded link⟩

theorem folderCount_pos {entry : Entry} (folder : entry.isFolder = true) : 0 < entry.folderCount := by
  cases entry with
  | file => cases folder
  | link => cases folder
  | folder name entries =>
    have grows (start : Nat) (children : List { child // child ∈ entries }) :
        start ≤ children.foldl (fun count child => count + child.1.folderCount) start := by
      induction children generalizing start with
      | nil => exact Nat.le_refl start
      | cons child children ih => exact Nat.le_trans (Nat.le_add_right ..) (ih _)
    rw [Entry.folderCount]
    exact grows 1 entries.attach

/-- A walk from a path to a folder tree without links lists that tree. The path itself may be a link. -/
theorem walk_of_plain {path : Path} {found : Found} (resolved : disk.resolve true path = .ok found)
    (plain : found.entry.Plain) :
    disk.walk enters path = .ok ((found.entry.listing enters).map path.descend) := by
  rcases resolve_last resolved with direct | ⟨folder,location,name,target,link⟩
  · rw [walk,direct]
    exact walkEntry_of_plain plain _ _ _
  · obtain ⟨spare,enough⟩ := Nat.exists_eq_succ_of_ne_zero (Nat.ne_of_gt (folderCount_pos folder))
    obtain ⟨there,entry⟩ := found
    rw [walk,link,enough]
    simp only [walkEntry,resolved]
    cases entry with
    | file => rw [Entry.listing]; rfl
    | folder => exact walkEntry_of_plain plain _ _ _
    | link => cases plain

end Disk

end SourceAtlas
