import Mathlib.Algebra.GroupWithZero.Nat
import SourceAtlas.Disk.Walk
import SourceAtlas.Proofs.Way

/-! A disk without what is at one of its locations. Every other entry stays where it is, and a folder on
the way to that location lacks one entry. -/
namespace SourceAtlas.Disk

namespace Entry

/-- An entry that is at `here`, without what is at `gone`. -/
def without (gone here : List String) : Entry → Entry
  | folder name entries => folder name (entries.attach.filterMap fun child =>
    if here ++ [child.1.name] = gone then none
    else some (child.1.without gone (here ++ [child.1.name])))
  | entry => entry
decreasing_by
  have := List.sizeOf_lt_of_mem child.2
  simp
  omega

/-- What is left of an entry of the folder at `here`. -/
def leftIn (gone here : List String) (child : Entry) : Option Entry :=
  if here ++ [child.name] = gone then none else some (child.without gone (here ++ [child.name]))

variable {gone here : List String} {entry : Entry}

theorem without_folder (gone here : List String) (name : String) (entries : List Entry) :
    (folder name entries).without gone here = folder name (entries.filterMap (leftIn gone here)) := by
  rw [without]
  conv => rhs; rw [← List.attach_map_subtype_val entries,List.filterMap_map]
  rfl

@[simp] theorem without_file (name : String) (bytes : List UInt8) :
    (file name bytes).without gone here = file name bytes := by
  rw [without]
  exact nofun

@[simp] theorem without_link (name target : String) :
    (link name target).without gone here = link name target := by
  rw [without]
  exact nofun

@[simp] theorem name_without : (entry.without gone here).name = entry.name := by
  cases entry with
  | folder name entries => rw [without_folder]; rfl
  | _ => simp

@[simp] theorem isFolder_without : (entry.without gone here).isFolder = entry.isFolder := by
  cases entry with
  | folder name entries => rw [without_folder]; rfl
  | _ => simp

theorem find?_leftIn (gone here : List String) (name : String) (entries : List Entry) :
    (entries.filterMap (leftIn gone here)).find? (·.name == name) =
      if here ++ [name] = gone then none
      else (entries.find? (·.name == name)).map (·.without gone (here ++ [name])) := by
  induction entries with
  | nil => simp
  | cons child entries ih =>
    rw [List.filterMap_cons,leftIn]
    by_cases removed : here ++ [child.name] = gone
    · rw [if_pos removed]
      dsimp only
      rw [ih]
      by_cases named : child.name = name
      · rw [← named,if_pos removed,if_pos removed]
      · rw [List.find?_cons_of_neg (by simpa using named)]
    · rw [if_neg removed]
      dsimp only
      by_cases named : child.name = name
      · rw [← named,if_neg removed,List.find?_cons_of_pos (by simp),List.find?_cons_of_pos (by simp),
          Option.map_some]
      · rw [List.find?_cons_of_neg (by simpa using named),List.find?_cons_of_neg (by simpa using named),ih]

theorem find?_without (gone here : List String) (entry : Entry) (name : String) :
    (entry.without gone here).find? name = if here ++ [name] = gone then none
      else (entry.find? name).map (·.without gone (here ++ [name])) := by
  cases entry with
  | folder folderName entries =>
    rw [without_folder]
    exact find?_leftIn gone here name entries
  | _ => simp [find?,entries]

theorem folderCount_folder (name : String) (entries : List Entry) :
    (folder name entries).folderCount = 1 + (entries.map folderCount).sum := by
  have counted (start : Nat) (children : List { child // child ∈ entries }) :
      children.foldl (fun count child => count + child.1.folderCount) start =
        start + (children.map fun child => child.1.folderCount).sum := by
    induction children generalizing start with
    | nil => rfl
    | cons child children ih =>
      rw [List.foldl_cons,ih,List.map_cons,List.sum_cons,Nat.add_assoc]
  rw [folderCount,counted]
  conv => rhs; rw [← List.attach_map_subtype_val entries,List.map_map]
  rfl

theorem folderCount_of_isFolder (single : entry.isFolder = false) : entry.folderCount = 0 := by
  cases entry with
  | folder => cases single
  | _ => simp [folderCount]

theorem sum_filterMap {α β : Type} (kept : α → Option β) (count : β → Nat) (items : List α) :
    ((items.filterMap kept).map count).sum = (items.map fun item => (kept item).elim 0 count).sum := by
  induction items with
  | nil => rfl
  | cons item items ih =>
    rw [List.filterMap_cons,List.map_cons,List.sum_cons,← ih]
    cases kept item with
    | none => exact (Nat.zero_add _).symm
    | some _ => rfl

/-- Without an entry that is no folder there are as many folders. -/
theorem folderCount_without (gone here : List String) (entry : Entry)
    (single : ∀ names inner, entry.Holds names inner → here ++ names = gone → inner.isFolder = false) :
    (entry.without gone here).folderCount = entry.folderCount := by
  match entry with
  | file .. => rw [without_file]
  | link .. => rw [without_link]
  | folder name entries =>
    rw [without_folder,folderCount_folder,folderCount_folder]
    rw [sum_filterMap]
    congr 2
    apply List.map_congr_left
    intro child inside
    unfold leftIn
    split
    · next removed =>
      exact (folderCount_of_isFolder (single _ child (.deeper name inside (.here child)) removed)).symm
    · apply folderCount_without
      intro names inner there removed
      apply single (child.name :: names) inner (.deeper name inside there)
      rw [← removed,List.append_assoc]
      rfl
termination_by sizeOf entry
decreasing_by exact sizeOf_entry_lt inside

end Entry

-- Trails

variable {root entry : Entry} {trail reached : Trail} {gone location : List String}

/-- A trail as it is without what is at a location. -/
def Trail.without (gone : List String) : Trail → Trail
  | [] => []
  | entry :: trail => entry.without gone (Trail.location (entry :: trail)) :: Trail.without gone trail

namespace Trail

theorem location_without (gone : List String) (trail : Trail) :
    (trail.without gone).location = trail.location := by
  induction trail with
  | nil => rfl
  | cons entry trail ih => rw [without,location_cons,location_cons,ih,Entry.name_without]

theorem entry_without (gone : List String) (root : Entry) (trail : Trail) :
    (trail.without gone).entry (root.without gone []) = (trail.entry root).without gone trail.location := by
  cases trail <;> rfl

theorem tail_without (gone : List String) (trail : Trail) :
    (trail.without gone).tail = Trail.without gone trail.tail := by
  cases trail <;> rfl

theorem startFrom_without (gone : List String) (trail : Trail) (text : String) :
    startFrom (trail.without gone) text = (startFrom trail text).without gone := by
  unfold startFrom
  split <;> rfl

theorem find?_without (stays : trail.location ++ [name] ≠ gone)
    (found : Entry.find? (trail.entry root) name = some entry) :
    Entry.find? ((trail.without gone).entry (root.without gone [])) name =
      some (entry.without gone (trail.location ++ [name])) := by
  rw [entry_without,Entry.find?_without,if_neg stays,found,Option.map_some]

end Trail

/-- What is at a location is no folder and leads to none. -/
structure Apart (root : Entry) (gone : List String) : Prop where
  single : ∀ entry, root.Holds gone entry → entry.isFolder = false
  target : ∀ name target trail reached, trailTo? root gone = some (.link name target :: trail) →
    walkParts root true linkLimit (startFrom trail target) (partsOf target) = .ok reached →
      (reached.entry root).isFolder = false

theorem Apart.location_ne (apart : Apart root gone) (leads : Leads root trail)
    (inFolder : (trail.entry root).isFolder = true) : trail.location ≠ gone := by
  rintro rfl
  rw [apart.single _ leads.holds] at inFolder
  cases inFolder

/-- A way that ends in a folder does not need an entry that neither is a folder nor leads to one. Nor
does the same way if a link at its very end is not followed, and it ends elsewhere. -/
theorem Way.without {limit : Nat} {parts : List String} (way : Way root true limit trail parts reached)
    (apart : Apart root gone) (start : Leads root trail) (inFolder : (trail.entry root).isFolder = true)
    (few : limit ≤ linkLimit) (folder : (reached.entry root).isFolder = true) :
    Way (root.without gone []) true limit (trail.without gone) parts (reached.without gone) ∧
    ∃ ending, Way root false limit trail parts ending ∧
      Way (root.without gone []) false limit (trail.without gone) parts (ending.without gone) ∧
      Trail.location ending ≠ gone := by
  induction way with
  | done limit trail => exact ⟨.done _ _,trail,.done _ _,.done _ _,apart.location_ne start inFolder⟩
  | filler empty _ ih =>
    obtain ⟨left,ending,whole,short,elsewhere⟩ := ih start inFolder few folder
    exact ⟨.filler empty left,ending,.filler empty whole,.filler empty short,elsewhere⟩
  | @up limit trail reached rest _ ih =>
    obtain ⟨left,ending,whole,short,elsewhere⟩ := ih start.tail (start.isFolder_tail inFolder) few folder
    rw [← Trail.tail_without] at left short
    exact ⟨.up left,ending,.up whole,.up short,elsewhere⟩
  | @folder limit trail reached part name rest entries step found _ ih =>
    have onward : Leads root (.folder name entries :: trail) := start.cons found
    obtain rfl : name = part := Entry.name_of_find? found
    have stays : trail.location ++ [name] ≠ gone := by
      rw [← Entry.name_of_find? found,← Trail.location_cons]
      exact apart.location_ne onward rfl
    have there := Trail.find?_without stays found
    obtain ⟨left,ending,whole,short,elsewhere⟩ := ih onward rfl few folder
    rw [Trail.without,Trail.location_cons,Entry.without_folder] at left short
    rw [Entry.without_folder] at there
    exact ⟨.folder step there left,ending,.folder step found whole,.folder step there short,elsewhere⟩
  | file => cases folder
  | last => cases folder
  | @link limit trail reached part name target rest step found onward later ih =>
    have starting := start.startFrom target
    have startingIn := start.isFolder_startFrom inFolder target
    have fewer : limit ≤ linkLimit := Nat.le_of_succ_le few
    -- The way goes on in a folder after the target of this link, so the link is not what is gone.
    have stays : trail.location ++ [part] ≠ gone := by
      rintro rfl
      obtain ⟨middle,way,inside⟩ := later.front starting startingIn folder
      have leads : Leads root (.link name target :: trail) := start.cons found
      rw [Leads,Trail.location_cons,Entry.name_of_find? found] at leads
      have outside := apart.target name target trail middle leads (way.mono fewer).walkParts
      rw [inside] at outside
      cases outside
    have there := Trail.find?_without stays found
    rw [Entry.without_link] at there
    obtain ⟨left,ending,whole,short,elsewhere⟩ := ih starting startingIn fewer folder
    rw [← Trail.startFrom_without] at left short
    refine ⟨.link step there (.inr rfl) left,?_⟩
    -- Without following it, the way ends at this link if it is the last part of the path.
    by_cases alone : rest = []
    · subst alone
      refine ⟨.link name target :: trail,.last _ step found rfl,?_,?_⟩
      · rw [Trail.without,Entry.without_link]
        exact .last _ step there rfl
      · rwa [Trail.location_cons,Entry.name_of_find? found]
    · exact ⟨ending,.link step found (.inl alone) whole,.link step there (.inl alone) short,elsewhere⟩

theorem Leads.without (apart : Apart root gone) (leads : Leads root trail)
    (inFolder : (trail.entry root).isFolder = true) :
    Leads (root.without gone []) (trail.without gone) := by
  induction trail with
  | nil => exact .nil _
  | cons entry trail ih =>
    have stays : Trail.location trail ++ [entry.name] ≠ gone := by
      rw [← Trail.location_cons]
      exact apart.location_ne leads inFolder
    have before := ih leads.tail (leads.isFolder_tail inFolder)
    rw [Trail.without,Trail.location_cons]
    exact before.cons (Trail.find?_without stays leads.find?)

-- Disks

/-- A disk without what is at a location. -/
def without (disk : Disk) (gone : List String) : Disk := { disk with root := disk.root.without gone [] }

variable {disk : Disk}

/-- What is left on a disk is what was at its location before, without what is gone. -/
theorem exists_of_trailTo?_without (left : trailTo? (root.without gone []) location = some reached) :
    ∃ trail, trailTo? root location = some trail ∧
      reached.entry (root.without gone []) = (trail.entry root).without gone location := by
  induction location using List.reverseRecOn generalizing reached with
  | nil =>
    cases left
    exact ⟨[],rfl,rfl⟩
  | append_singleton location name ih =>
    rw [trailTo?_concat] at left
    obtain ⟨before,there,left⟩ := Option.bind_eq_some_iff.mp left
    obtain ⟨entry,here,rfl⟩ := Option.map_eq_some_iff.mp left
    obtain ⟨trail,first,same⟩ := ih there
    rw [same,Entry.find?_without] at here
    split at here
    · cases here
    · obtain ⟨inner,found,rfl⟩ := Option.map_eq_some_iff.mp here
      refine ⟨inner :: trail,?_,rfl⟩
      rw [trailTo?_concat,first,Option.bind_some,found]
      rfl

theorem entry_without {last : Bool} {path : Path} {found left : Found}
    (resolved : disk.resolve last path = .ok found)
    (stays : (disk.without gone).resolve last path = .ok left) (same : left.location = found.location) :
    left.entry = found.entry.without gone found.location := by
  obtain ⟨trail,leads,rfl⟩ := exists_of_resolve resolved
  obtain ⟨short,leadsLeft,rfl⟩ := exists_of_resolve stays
  obtain ⟨whole,there,entry⟩ := exists_of_trailTo?_without leadsLeft
  dsimp only at same
  rw [same,leads] at there
  cases Option.some.inj there
  exact same ▸ entry

/-- The working directory is a folder if it is there. -/
def WorksInFolder (disk : Disk) : Prop :=
  ∀ trail, trailTo? disk.root disk.workingDirectory = some trail → (trail.entry disk.root).isFolder = true

theorem startOf_without {path : Path} {start : Trail} (apart : Apart disk.root gone)
    (works : disk.WorksInFolder) (top : disk.root.isFolder = true) (started : disk.startOf path = .ok start) :
    (start.entry disk.root).isFolder = true ∧
      (disk.without gone).startOf path = .ok (start.without gone) := by
  unfold startOf at started ⊢
  split at started
  · next absolute =>
    cases started
    rw [if_pos absolute]
    exact ⟨top,rfl⟩
  · next relative =>
    cases known : trailTo? disk.root disk.workingDirectory with
    | none => simp [known] at started
    | some trail =>
      rw [known] at started
      obtain rfl : trail = start := Except.ok.inj started
      obtain ⟨there,leads⟩ := leads_of_trailTo? known
      have left := leads.without apart (works trail known)
      rw [Leads,Trail.location_without,there] at left
      rw [if_neg relative]
      exact ⟨works trail known,by rw [without,left]; rfl⟩

/-- A path that leads to a folder leads there without an entry that neither is a folder nor leads to
one, and so does the same path if a link at its very end is not followed. -/
theorem resolve_without {path : Path} {found : Found} (apart : Apart disk.root gone)
    (works : disk.WorksInFolder) (resolved : disk.resolve true path = .ok found)
    (folder : found.entry.isFolder = true) :
    (disk.without gone).resolve true path =
      .ok ⟨found.location,found.entry.without gone found.location⟩ ∧
    ∃ ending, disk.resolve false path = .ok ending ∧ (disk.without gone).resolve false path =
      .ok ⟨ending.location,ending.entry.without gone ending.location⟩ ∧ ending.location ≠ gone := by
  obtain ⟨checked,short,start,trail,started,way,rfl⟩ := resolve_eq_ok_iff.mp resolved
  have leads := leads_of_startOf started
  have top : disk.root.isFolder = true := (way.leads leads).isFolder_root folder
  obtain ⟨inFolder,startedLeft⟩ := startOf_without apart works top started
  obtain ⟨left,ending,whole,shorter,elsewhere⟩ := way.without apart leads inFolder (Nat.le_refl _) folder
  have found (last : Bool) (reached : Trail)
      (way : Way (disk.without gone).root last linkLimit (start.without gone) (partsOf path.text)
        (reached.without gone)) : (disk.without gone).resolve last path =
          .ok ⟨reached.location,(reached.entry disk.root).without gone reached.location⟩ := by
    refine resolve_eq_ok_iff.mpr ⟨checked,short,_,_,startedLeft,way,?_⟩
    rw [Trail.location_without,without,Trail.entry_without]
  refine ⟨found true trail left,⟨ending.location,ending.entry disk.root⟩,?_,found false ending shorter,
    elsewhere⟩
  exact resolve_eq_ok_iff.mpr ⟨checked,short,start,ending,started,whole,rfl⟩

end SourceAtlas.Disk
