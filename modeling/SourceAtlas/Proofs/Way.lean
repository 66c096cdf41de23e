import Mathlib.Data.List.Induction
import SourceAtlas.Disk.Entry
import SourceAtlas.Proofs.FirstFault

/-! How a path is followed on a disk, part by part. A way that ends in a folder stays in folders until it
is there. -/
namespace SourceAtlas.Disk

-- Entries and trails

namespace Entry

variable {entry inner : Entry} {name : String}

theorem name_of_find? (found : entry.find? name = some inner) : inner.name = name := by
  unfold find? at found
  simpa using List.find?_some found

theorem mem_of_find? (found : entry.find? name = some inner) : inner ∈ entry.entries :=
  List.mem_of_find?_eq_some found

theorem isFolder_of_find? (found : entry.find? name = some inner) : entry.isFolder = true := by
  have inside := mem_of_find? found
  cases entry with
  | folder => rfl
  | _ => cases inside

/-- What is at the end of the given names. -/
inductive Holds : Entry → List String → Entry → Prop
  | here (entry : Entry) : Holds entry [] entry
  | deeper (name : String) {entries : List Entry} {child inner : Entry} {names : List String}
    (member : child ∈ entries) (there : Holds child names inner) :
    Holds (.folder name entries) (child.name :: names) inner

theorem Holds.step {folder : Entry} {names : List String} (there : entry.Holds names folder)
    (inside : inner ∈ folder.entries) : entry.Holds (names ++ [inner.name]) inner := by
  induction there with
  | here folder =>
    cases folder with
    | folder name entries => exact .deeper name inside (.here inner)
    | _ => cases inside
  | deeper name member _ ih => exact .deeper name member (ih inside)

theorem Holds.exists_of_cons {names : List String}
    (there : entry.Holds (name :: names) inner) :
    ∃ child ∈ entry.entries, child.name = name ∧ child.Holds names inner := by
  generalize whole : name :: names = location at there
  cases there with
  | here => cases whole
  | deeper _ member there =>
    obtain ⟨rfl,rfl⟩ := List.cons.inj whole
    exact ⟨_,member,rfl,there⟩

end Entry

variable {root entry : Entry} {trail reached : Trail} {location : List String}

theorem Trail.location_cons (entry : Entry) (trail : Trail) :
    Trail.location (entry :: trail) = trail.location ++ [entry.name] := List.reverse_cons

theorem trailTo?_concat (root : Entry) (location : List String) (name : String) :
    trailTo? root (location ++ [name]) = (trailTo? root location).bind fun trail =>
      (Entry.find? (trail.entry root) name).map (· :: trail) := by
  rw [trailTo?,trailTo?,List.foldlM_append]
  refine congrArg (Option.bind _) ?_
  funext trail
  rw [List.foldlM_cons]
  exact bind_pure _

/-- A trail leads to its location: each entry on it is the first of its name in the one before. -/
def Leads (root : Entry) (trail : Trail) : Prop := trailTo? root trail.location = some trail

namespace Leads

theorem nil (root : Entry) : Leads root [] := rfl

theorem cons {name : String} (leads : Leads root trail)
    (found : Entry.find? (trail.entry root) name = some entry) : Leads root (entry :: trail) := by
  rw [Leads,Trail.location_cons,trailTo?_concat,leads,Entry.name_of_find? found,Option.bind_some,found]
  rfl

theorem tail (leads : Leads root trail) : Leads root trail.tail := by
  cases trail with
  | nil => exact leads
  | cons entry trail =>
    rw [Leads,Trail.location_cons,trailTo?_concat] at leads
    obtain ⟨front,there,leads⟩ := Option.bind_eq_some_iff.mp leads
    obtain ⟨inner,_,same⟩ := Option.map_eq_some_iff.mp leads
    cases same
    exact there

theorem find? (leads : Leads root (entry :: trail)) :
    Entry.find? (trail.entry root) entry.name = some entry := by
  have before : Leads root trail := leads.tail
  rw [Leads,Trail.location_cons,trailTo?_concat,before,Option.bind_some] at leads
  obtain ⟨inner,found,same⟩ := Option.map_eq_some_iff.mp leads
  cases same
  exact found

theorem startFrom (leads : Leads root trail) (text : String) :
    Leads root (Disk.startFrom trail text) := by
  unfold Disk.startFrom
  split
  · exact nil root
  · exact leads

theorem isFolder_tail (leads : Leads root trail) (inFolder : (trail.entry root).isFolder = true) :
    (Trail.entry root trail.tail).isFolder = true := by
  cases trail with
  | nil => exact inFolder
  | cons entry trail => exact Entry.isFolder_of_find? leads.find?

theorem isFolder_root (leads : Leads root trail) (inFolder : (trail.entry root).isFolder = true) :
    root.isFolder = true := by
  induction trail with
  | nil => exact inFolder
  | cons entry trail ih => exact ih leads.tail (leads.isFolder_tail inFolder)

theorem isFolder_startFrom (leads : Leads root trail) (inFolder : (trail.entry root).isFolder = true)
    (text : String) : ((Disk.startFrom trail text).entry root).isFolder = true := by
  unfold Disk.startFrom
  split
  · exact leads.isFolder_root inFolder
  · exact inFolder

theorem holds (leads : Leads root trail) : root.Holds trail.location (trail.entry root) := by
  induction trail with
  | nil => exact .here root
  | cons entry trail ih =>
    rw [Trail.location_cons]
    exact (ih leads.tail).step (Entry.mem_of_find? leads.find?)

end Leads

theorem leads_of_trailTo? (found : trailTo? root location = some trail) :
    trail.location = location ∧ Leads root trail := by
  induction location using List.reverseRecOn generalizing trail with
  | nil =>
    cases found
    exact ⟨rfl,.nil root⟩
  | append_singleton location name ih =>
    rw [trailTo?_concat] at found
    obtain ⟨before,there,found⟩ := Option.bind_eq_some_iff.mp found
    obtain ⟨entry,here,rfl⟩ := Option.map_eq_some_iff.mp found
    obtain ⟨rfl,leads⟩ := ih there
    exact ⟨by rw [Trail.location_cons,Entry.name_of_find? here],leads.cons here⟩

-- Ways

/-- A part of a path that names an entry of a folder. -/
structure IsStep (part : String) : Prop where
  solid : ¬(part = "" ∨ part = ".")
  notUp : part ≠ ".."
  short : ¬isLongName part

theorem isStep_iff {part : String} : IsStep part ↔
    ¬(part = "" ∨ part = ".") ∧ part ≠ ".." ∧ ¬isLongName part :=
  ⟨fun ⟨solid,notUp,short⟩ => ⟨solid,notUp,short⟩,fun ⟨solid,notUp,short⟩ => ⟨solid,notUp,short⟩⟩

instance (part : String) : Decidable (IsStep part) := decidable_of_iff' _ isStep_iff

section Steps

variable {follow : Bool} {limit : Nat} {part : String} {rest : List String}

theorem walkParts_filler (empty : part = "" ∨ part = ".") :
    walkParts root follow limit trail (part :: rest) = walkParts root follow limit trail rest := by
  rw [walkParts,if_pos empty]

theorem walkParts_missing (step : IsStep part) (missing : Entry.find? (trail.entry root) part = none) :
    walkParts root follow limit trail (part :: rest) = .error .notFound := by
  rw [walkParts,if_neg step.solid,if_neg step.notUp,if_neg step.short,missing]

theorem walkParts_link {name target : String} (step : IsStep part)
    (found : Entry.find? (trail.entry root) part = some (.link name target))
    (onward : rest ≠ [] ∨ follow = true) :
    walkParts root follow (limit + 1) trail (part :: rest) =
      walkParts root follow limit (startFrom trail target) (partsOf target ++ rest) := by
  rw [walkParts,if_neg step.solid,if_neg step.notUp,if_neg step.short,found]
  dsimp only
  rw [if_neg]
  rintro ⟨rfl,unfollowed⟩
  simp_all

end Steps

/-- The trail at the end of a way along the parts of a path. -/
inductive Way (root : Entry) (follow : Bool) : Nat → Trail → List String → Trail → Prop
  | done (limit : Nat) (trail : Trail) : Way root follow limit trail [] trail
  | filler {limit : Nat} {trail reached : Trail} {part : String} {rest : List String}
    (empty : part = "" ∨ part = ".") (later : Way root follow limit trail rest reached) :
    Way root follow limit trail (part :: rest) reached
  | up {limit : Nat} {trail reached : Trail} {rest : List String}
    (later : Way root follow limit trail.tail rest reached) :
    Way root follow limit trail (".." :: rest) reached
  | folder {limit : Nat} {trail reached : Trail} {part name : String} {rest : List String}
    {entries : List Entry} (step : IsStep part)
    (found : Entry.find? (trail.entry root) part = some (.folder name entries))
    (later : Way root follow limit (.folder name entries :: trail) rest reached) :
    Way root follow limit trail (part :: rest) reached
  | file {trail : Trail} {part name : String} {bytes : List UInt8} (limit : Nat) (step : IsStep part)
    (found : Entry.find? (trail.entry root) part = some (.file name bytes)) :
    Way root follow limit trail [part] (.file name bytes :: trail)
  | last {trail : Trail} {part name target : String} (limit : Nat) (step : IsStep part)
    (found : Entry.find? (trail.entry root) part = some (.link name target))
    (unfollowed : follow = false) : Way root follow limit trail [part] (.link name target :: trail)
  | link {limit : Nat} {trail reached : Trail} {part name target : String} {rest : List String}
    (step : IsStep part) (found : Entry.find? (trail.entry root) part = some (.link name target))
    (onward : rest ≠ [] ∨ follow = true)
    (later : Way root follow limit (startFrom trail target) (partsOf target ++ rest) reached) :
    Way root follow (limit + 1) trail (part :: rest) reached

variable {follow : Bool} {limit : Nat} {parts : List String}

theorem Way.walkParts (way : Way root follow limit trail parts reached) :
    walkParts root follow limit trail parts = .ok reached := by
  induction way with
  | done => rw [Disk.walkParts]
  | filler empty _ ih => rw [walkParts_filler empty,ih]
  | up _ ih => rw [Disk.walkParts,if_neg (by decide),if_pos rfl,ih]
  | folder step found _ ih =>
    rw [Disk.walkParts,if_neg step.solid,if_neg step.notUp,if_neg step.short,found]
    exact ih
  | file _ step found =>
    rw [Disk.walkParts,if_neg step.solid,if_neg step.notUp,if_neg step.short,found]
    exact if_pos rfl
  | last _ step found unfollowed =>
    rw [Disk.walkParts,if_neg step.solid,if_neg step.notUp,if_neg step.short,found]
    exact if_pos ⟨rfl,by simp [unfollowed]⟩
  | link step found onward _ ih => rw [walkParts_link step found onward,ih]

theorem way_of_walkParts (walked : walkParts root follow limit trail parts = .ok reached) :
    Way root follow limit trail parts reached := by
  fun_induction walkParts root follow limit trail parts with
  | case1 limit trail => exact Except.ok.inj walked ▸ .done limit trail
  | case2 _ _ _ _ empty ih => exact .filler empty (ih walked)
  | case3 _ _ _ _ ih => exact .up (ih walked)
  | case4 => cases walked
  | case5 => cases walked
  | case6 _ _ _ _ solid notUp short _ _ found ih =>
    exact .folder ⟨solid,notUp,short⟩ found (ih walked)
  | case7 limit _ _ solid notUp short _ _ found =>
    exact Except.ok.inj walked ▸ .file limit ⟨solid,notUp,short⟩ found
  | case8 => cases walked
  | case9 limit _ _ _ solid notUp short _ _ found last =>
    obtain ⟨rfl,unfollowed⟩ := last
    exact Except.ok.inj walked ▸ .last limit ⟨solid,notUp,short⟩ found
      (by simpa using unfollowed)
  | case10 => cases walked
  | case11 _ _ rest solid notUp short _ _ found onward _ ih =>
    refine .link ⟨solid,notUp,short⟩ found ?_ (ih walked)
    by_contra stays
    simp_all

namespace Way

theorem leads (way : Way root follow limit trail parts reached) (start : Leads root trail) :
    Leads root reached := by
  induction way with
  | done => exact start
  | filler _ _ ih => exact ih start
  | up _ ih => exact ih start.tail
  | folder _ found _ ih => exact ih (start.cons found)
  | file _ _ found => exact start.cons found
  | last _ _ found => exact start.cons found
  | link _ _ _ _ ih => exact ih (start.startFrom _)

/-- A way is the same if more links may be followed. -/
theorem mono {more : Nat} (way : Way root follow limit trail parts reached) (fewer : limit ≤ more) :
    Way root follow more trail parts reached := by
  induction way generalizing more with
  | done => exact .done more _
  | filler empty _ ih => exact .filler empty (ih fewer)
  | up _ ih => exact .up (ih fewer)
  | folder step found _ ih => exact .folder step found (ih fewer)
  | file _ step found => exact .file more step found
  | last _ step found unfollowed => exact .last more step found unfollowed
  | link step found onward _ ih =>
    obtain ⟨more,rfl⟩ := Nat.exists_eq_add_of_lt fewer
    exact .link step found onward (ih (by omega))

/-- Before a way is at its end in a folder it has been in a folder after any of its parts. -/
theorem front {first rest : List String} (way : Way root follow limit trail (first ++ rest) reached)
    (start : Leads root trail) (inFolder : (trail.entry root).isFolder = true)
    (folder : (reached.entry root).isFolder = true) :
    ∃ middle, Way root true limit trail first middle ∧ (middle.entry root).isFolder = true := by
  generalize whole : first ++ rest = parts at way
  induction way generalizing first with
  | done =>
    obtain ⟨rfl,rfl⟩ := List.append_eq_nil_iff.mp whole
    exact ⟨_,.done _ _,inFolder⟩
  | filler empty _ ih =>
    rcases List.append_eq_cons_iff.mp whole with ⟨rfl,_⟩ | ⟨front,rfl,rfl⟩
    · exact ⟨_,.done _ _,inFolder⟩
    · obtain ⟨middle,way,inside⟩ := ih start inFolder folder rfl
      exact ⟨middle,.filler empty way,inside⟩
  | up _ ih =>
    rcases List.append_eq_cons_iff.mp whole with ⟨rfl,_⟩ | ⟨front,rfl,rfl⟩
    · exact ⟨_,.done _ _,inFolder⟩
    · obtain ⟨middle,way,inside⟩ := ih start.tail (start.isFolder_tail inFolder) folder rfl
      exact ⟨middle,.up way,inside⟩
  | folder step found _ ih =>
    rcases List.append_eq_cons_iff.mp whole with ⟨rfl,_⟩ | ⟨front,rfl,rfl⟩
    · exact ⟨_,.done _ _,inFolder⟩
    · obtain ⟨middle,way,inside⟩ := ih (start.cons found) rfl folder rfl
      exact ⟨middle,.folder step found way,inside⟩
  | file => cases folder
  | last => cases folder
  | link step found _ _ ih =>
    rcases List.append_eq_cons_iff.mp whole with ⟨rfl,_⟩ | ⟨front,rfl,rfl⟩
    · exact ⟨_,.done _ _,inFolder⟩
    · obtain ⟨middle,way,inside⟩ := ih (start.startFrom _) (start.isFolder_startFrom inFolder _) folder
        (List.append_assoc _ front rest)
      exact ⟨middle,.link step found (.inr rfl) way,inside⟩

end Way

-- Resolved paths

variable {disk : Disk} {path : Path} {found : Found}

/-- A path that is resolved has a text that can be looked up and a way from where it starts. -/
theorem resolve_eq_ok_iff {last : Bool} : disk.resolve last path = .ok found ↔
    checkText path = .ok () ∧ checkLength path = .ok () ∧ ∃ start trail, disk.startOf path = .ok start ∧
      Way disk.root last linkLimit start (partsOf path.text) trail ∧
        found = ⟨trail.location,trail.entry disk.root⟩ := by
  constructor
  · intro resolved
    obtain ⟨_,checked,resolved⟩ := bind_eq_ok_iff.mp resolved
    obtain ⟨_,short,resolved⟩ := bind_eq_ok_iff.mp resolved
    obtain ⟨start,started,resolved⟩ := bind_eq_ok_iff.mp resolved
    obtain ⟨trail,followed,returned⟩ := bind_eq_ok_iff.mp resolved
    exact ⟨checked,short,start,trail,started,way_of_walkParts followed,(Except.ok.inj returned).symm⟩
  · rintro ⟨checked,short,start,trail,started,way,rfl⟩
    exact bind_eq_ok_iff.mpr ⟨(),checked,bind_eq_ok_iff.mpr ⟨(),short,
      bind_eq_ok_iff.mpr ⟨start,started,bind_eq_ok_iff.mpr ⟨trail,way.walkParts,rfl⟩⟩⟩⟩

theorem resolve_absolute {last : Bool} {parts : List String} (checked : checkText path = .ok ())
    (short : checkLength path = .ok ()) (absolute : path.isAbsolute = true)
    (split : partsOf path.text = parts) : disk.resolve last path =
      (walkParts disk.root last linkLimit [] parts).map fun trail =>
        ⟨trail.location,trail.entry disk.root⟩ := by
  have started : disk.startOf path = .ok [] := if_pos absolute
  rw [resolve,checked,short,← split]
  change disk.follow last path = _
  rw [Disk.follow,started]
  cases walked : walkParts disk.root last linkLimit [] (partsOf path.text) with
  | error fault => exact bind_eq_error_iff.mpr (.inr ⟨[],rfl,bind_eq_error_iff.mpr (.inl walked)⟩)
  | ok trail => exact bind_eq_ok_iff.mpr ⟨[],rfl,bind_eq_ok_iff.mpr ⟨trail,walked,rfl⟩⟩

theorem leads_of_startOf {start : Trail} (started : disk.startOf path = .ok start) :
    Leads disk.root start := by
  unfold startOf at started
  split at started
  · exact Except.ok.inj started ▸ .nil disk.root
  · cases known : trailTo? disk.root disk.workingDirectory with
    | none => simp [known] at started
    | some trail =>
      rw [known] at started
      exact Except.ok.inj started ▸ (leads_of_trailTo? known).2

theorem exists_of_resolve {last : Bool} (resolved : disk.resolve last path = .ok found) :
    ∃ trail, Leads disk.root trail ∧ found = ⟨trail.location,trail.entry disk.root⟩ := by
  obtain ⟨_,_,start,trail,started,way,same⟩ := resolve_eq_ok_iff.mp resolved
  exact ⟨trail,way.leads (leads_of_startOf started),same⟩

end SourceAtlas.Disk
