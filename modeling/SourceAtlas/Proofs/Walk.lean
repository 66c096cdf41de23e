import SourceAtlas.Disk.Walk
import SourceAtlas.Proofs.FolderTree
import SourceAtlas.Proofs.Way

/-! What a walk comes to, and what it gathers there. Links are resolved before their names are looked at,
so a walk comes to every link in a folder that it enters. -/
namespace SourceAtlas

-- Gathered lists

section Gather

variable {ε α β γ : Type} {items : List α} {step : α → Except ε (List β)}

/-- The lists that the steps give, one after the other, or the first fault. -/
def gather (step : α → Except ε (List β)) (items : List α) : Except ε (List β) :=
  (items.mapM step).map List.flatten

theorem gather_cons (step : α → Except ε (List β)) (item : α) (items : List α) :
    gather step (item :: items) = (step item).bind fun here =>
      (gather step items).map fun later => here ++ later := by
  rw [gather,gather,List.mapM_cons]
  cases step item with
  | error fault => rfl
  | ok here => cases items.mapM step <;> rfl

theorem filter_gather (kept : β → Bool) (step : α → Except ε (List β)) (items : List α) :
    (gather step items).map (List.filter kept) =
      gather (fun item => (step item).map (List.filter kept)) items := by
  induction items with
  | nil => rfl
  | cons item items ih =>
    rw [gather_cons,gather_cons,← ih]
    cases step item with
    | error fault => rfl
    | ok here =>
      cases gather step items with
      | error fault => rfl
      | ok later => exact congrArg Except.ok (List.filter_append here later)

/-- Items whose steps give nothing can be left out. -/
theorem gather_filterMap {left : α → Option γ} {stepLeft : γ → Except ε (List β)}
    (each : ∀ item ∈ items, (left item).elim (.ok []) stepLeft = step item) :
    gather stepLeft (items.filterMap left) = gather step items := by
  induction items with
  | nil => rfl
  | cons item items ih =>
    obtain ⟨here,later⟩ := List.forall_mem_cons.mp each
    rw [gather_cons,← here,← ih later,List.filterMap_cons]
    cases left item with
    | none => cases gather stepLeft (items.filterMap left) <;> rfl
    | some kept => exact gather_cons stepLeft kept _

end Gather

namespace Disk

-- What a walk comes to

/-- The visit of an entry of a folder that is visited. -/
def Visit.inner (here : Visit) (name : String) : Visit :=
  ⟨here.location ++ [name],here.path.join ⟨name⟩⟩

/-- The entries that a walk comes to, each with the folders around it and the visit of it. Folders that
are not entered are left out, and so is what lies in them. -/
inductive Meets (disk : Disk) (enters : String → Bool) (root : Path) : List Visit → Visit → Entry → Prop
  | start {found : Found} (resolved : disk.resolve false root = .ok found) :
    Meets disk enters root [] ⟨found.location,root⟩ found.entry
  | inner {visits : List Visit} {here : Visit} {name : String} {entries : List Entry} {child : Entry}
    (met : Meets disk enters root visits here (.folder name entries)) (inside : child ∈ entries)
    (entered : child.isFolder = true → enters child.name = true) :
    Meets disk enters root (here :: visits) (here.inner child.name) child
  | linked {visits : List Visit} {here : Visit} {name target : String} {found : Found}
    (met : Meets disk enters root visits here (.link name target))
    (resolved : disk.resolve true here.path = .ok found) (folder : found.entry.isFolder = true)
    (fresh : loopTo? visits found.location = none) (entered : visits = [] ∨ enters name = true) :
    Meets disk enters root visits ⟨found.location,here.path⟩ found.entry

variable {disk : Disk} {enters : String → Bool} {root : Path}

/-- The files that a walk finds below an entry of a folder. -/
def walkInner (disk : Disk) (enters : String → Bool) (spare : Nat) (visits : List Visit) (here : Visit)
    (child : Entry) : Except WalkFault (List Path) :=
  if child.isFolder && !enters child.name then .ok []
  else walkEntry disk enters spare (here :: visits) (here.inner child.name) child

theorem walkEntry_folder (disk : Disk) (enters : String → Bool) (spare : Nat) (visits : List Visit)
    (here : Visit) (name : String) (entries : List Entry) :
    walkEntry disk enters spare visits here (.folder name entries) =
      gather (walkInner disk enters spare visits here) entries := by
  rw [walkEntry,gather]
  conv => rhs; rw [← List.attach_map_subtype_val entries,List.mapM_map]
  exact (map_eq_pure_bind _ _).symm

section Links

variable {spare : Nat} {visits : List Visit} {here : Visit} {name target : String} {found : Found}

theorem walkEntry_unresolved {fault : Disk.Fault} (failed : disk.resolve true here.path = .error fault) :
    walkEntry disk enters spare visits here (.link name target) =
      .error (.unreadable here.path fault) := by
  rw [walkEntry,failed]

theorem walkEntry_linkedFile (resolved : disk.resolve true here.path = .ok found)
    (single : found.entry.isFolder = false) :
    walkEntry disk enters spare visits here (.link name target) = .ok [here.path] := by
  rw [walkEntry,resolved]
  simp only [single,Bool.false_eq_true,if_false]

/-- What becomes of a link to a folder: a loop, too many links, no entry, or a visit of the folder. -/
theorem walkEntry_linkedFolder (resolved : disk.resolve true here.path = .ok found)
    (folder : found.entry.isFolder = true) :
    walkEntry disk enters spare visits here (.link name target) =
      match loopTo? visits found.location,spare with
      | some around,_ => .error (.loop here.path around.path)
      | none,0 => .error (.unreadable here.path .tooManyLinks)
      | none,spare + 1 =>
        if visits = [] ∨ enters name = true then
          walkEntry disk enters spare visits ⟨found.location,here.path⟩ found.entry
        else .ok [] := by
  rw [walkEntry,resolved]
  simp only [folder,if_true]
  cases loopTo? visits found.location with
  | some around => rfl
  | none =>
    cases spare with
    | zero => rfl
    | succ spare =>
      dsimp only
      cases visits <;> cases enters name <;> simp

end Links

theorem Meets.holds {visits : List Visit} {here : Visit} {entry : Entry}
    (met : Meets disk enters root visits here entry) : disk.root.Holds here.location entry := by
  induction met with
  | start resolved =>
    obtain ⟨trail,leads,rfl⟩ := exists_of_resolve resolved
    exact leads.holds
  | inner _ inside _ ih => exact ih.step inside
  | linked _ resolved =>
    obtain ⟨trail,leads,rfl⟩ := exists_of_resolve resolved
    exact leads.holds

-- Walks from the top

theorem resolve_top (disk : Disk) (last : Bool) : disk.resolve last ⟨"/"⟩ = .ok ⟨[],disk.root⟩ := by
  rw [resolve_absolute rfl rfl rfl (show partsOf "/" = ["",""] by decide),walkParts_filler (.inl rfl),
    walkParts_filler (.inl rfl),walkParts]
  rfl

/-- A link at the top is followed from there. -/
theorem resolve_topLink {path : Path} {name target : String} (checked : checkText path = .ok ())
    (short : checkLength path = .ok ()) (absolute : path.isAbsolute = true)
    (split : partsOf path.text = ["",name]) (step : IsStep name)
    (link : Entry.find? disk.root name = some (.link name target)) : disk.resolve true path =
      (walkParts disk.root true 39 [] (partsOf target)).map fun trail =>
        ⟨trail.location,trail.entry disk.root⟩ := by
  have start : startFrom [] target = [] := ite_self []
  have there : Entry.find? (Trail.entry disk.root []) name = some (.link name target) := link
  rw [resolve_absolute checked short absolute split,walkParts_filler (.inl rfl),linkLimit,
    walkParts_link step there (.inr rfl),start,List.append_nil]

section Top

variable {enters : String → Bool} {spare : Nat} {visits : List Visit} {here : Visit} {name target : String}
  {bytes : List UInt8} {entries : List Entry}

theorem walkInner_file : walkInner disk enters spare visits here (.file name bytes) =
    .ok [here.path.join ⟨name⟩] := by
  simp [walkInner,Entry.isFolder,Entry.name,walkEntry,Visit.inner]

theorem walkInner_link : walkInner disk enters spare visits here (.link name target) =
    walkEntry disk enters spare (here :: visits) (here.inner name) (.link name target) := by
  simp [walkInner,Entry.isFolder,Entry.name]

theorem walkInner_folder (entered : enters name = true) :
    walkInner disk enters spare visits here (.folder name entries) =
      gather (walkInner disk enters spare (here :: visits) (here.inner name)) entries := by
  rw [walkInner,Entry.name,entered,Bool.not_true,Bool.and_false,if_neg Bool.false_ne_true,
    walkEntry_folder]

theorem gather_files (names : List String) :
    gather (walkInner disk enters spare visits here) (names.map fun name => .file name []) =
      .ok (names.map fun name => here.path.join ⟨name⟩) := by
  induction names with
  | nil => rfl
  | cons name names ih =>
    rw [List.map_cons,gather_cons,walkInner_file,ih]
    rfl

/-- A walk from the top gathers what it finds below the entries there. -/
theorem walk_top (enters : String → Bool) (top : disk.root = .folder name entries) :
    ∃ spare, disk.walk enters ⟨"/"⟩ =
      gather (walkInner disk enters (spare + 1) [] ⟨[],⟨"/"⟩⟩) entries := by
  have counts : 0 < disk.root.folderCount := folderCount_pos (top ▸ rfl)
  obtain ⟨spare,counted⟩ := Nat.exists_eq_succ_of_ne_zero (Nat.ne_of_gt counts)
  refine ⟨spare,?_⟩
  rw [walk,resolve_top]
  dsimp only
  rw [counted,top,walkEntry_folder]

end Top

end Disk

end SourceAtlas
