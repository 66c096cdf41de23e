import Mathlib.Algebra.GroupWithZero.Nat
import Mathlib.Data.List.Infix
import SourceAtlas.Proofs.PathKey
import SourceAtlas.Proofs.Way
import SourceAtlas.Survey

/-! The root of a project is the nearest marked folder. The parents of an absolute path are the starts of
its components, so that the first marked one on the way up is the deepest. -/
namespace SourceAtlas

open Text
open Disk (checkText pathOf Leads way_of_walkParts leads_of_startOf)

-- Parents of absolute paths

namespace Path

open Component

variable {path parent : Path}

theorem filterMap_dropWhile_isFiller (parts : List (List Char)) :
    (parts.dropWhile isFiller).filterMap ofPart? = parts.filterMap ofPart? := by
  induction parts with
  | nil => rfl
  | cons part parts ih =>
    by_cases filler : isFiller part = true
    · rw [List.dropWhile_cons_of_pos filler,ih,List.filterMap_cons_none (isFiller_iff.mp filler)]
    · rw [List.dropWhile_cons_of_neg filler]

theorem componentsOf_joined {parts : List (List Char)} (clean : ∀ part ∈ parts, '/' ∉ part) :
    componentsOf ('/' :: joinWith ['/'] parts) = .root :: parts.filterMap ofPart? := by
  rw [componentsOf_absolute]
  by_cases some : parts = []
  · subst some
    rfl
  · rw [splitAt_joinWith some clean]

theorem isAbsolute_iff : path.isAbsolute = true ↔ ∃ rest, path.text.toList = '/' :: rest := by
  rw [isAbsolute,beq_iff_eq,List.head?_eq_some_iff]

theorem isAbsolute_join {base : Path} (absolute : base.isAbsolute = true) (path : Path) :
    (base.join path).isAbsolute = true := by
  obtain ⟨rest,spelled⟩ := isAbsolute_iff.mp absolute
  unfold join
  split
  · assumption
  · split
    · next empty =>
      rw [spelled] at empty
      simp at empty
    · exact isAbsolute_iff.mpr ⟨rest ++ path.text.toList,by simp [spelled]⟩
    · exact isAbsolute_iff.mpr ⟨rest ++ '/' :: path.text.toList,by simp [spelled]⟩

theorem parent?_of_absolute {rest : List Char} (absolute : path.text.toList = '/' :: rest) :
    path.parent? = match (splitAt '/' rest).reverse.dropWhile isFiller with
      | [] => none
      | _ :: before => some ⟨String.ofList ('/' :: joinWith ['/'] (before.dropWhile isFiller).reverse)⟩ := by
  have split : splitAt '/' ('/' :: rest) = [] :: splitAt '/' rest := by rw [splitAt,if_pos rfl]
  rw [parent?,absolute]
  simp only [split]
  rfl

theorem length_joinWith {parts : List (List Char)} (some : parts ≠ []) :
    (joinWith ['/'] parts).length + 1 = (parts.map fun part => part.length + 1).sum := by
  induction parts with
  | nil => contradiction
  | cons part parts ih =>
    by_cases last : parts = []
    · subst last
      simp [joinWith]
    · rw [joinWith_cons last,List.map_cons,List.sum_cons,← ih last,List.length_append,List.length_append,
        List.length_singleton]
      omega

theorem length_joinWith_le (parts : List (List Char)) :
    (joinWith ['/'] parts).length ≤ (parts.map fun part => part.length + 1).sum := by
  by_cases some : parts = []
  · subst some
    exact Nat.le_refl 0
  · exact Nat.le_of_succ_le (Nat.le_of_eq (length_joinWith some))

/-- The parent of an absolute path has a shorter text and all components but the last. -/
theorem parent?_cases (absolute : path.isAbsolute = true) :
    path.parent? = none ∧ path.components = [.root] ∨
    ∃ parent last, path.parent? = some parent ∧ parent.isAbsolute = true ∧
      path.components = parent.components ++ [last] ∧ parent.text.length < path.text.length := by
  obtain ⟨rest,spelled⟩ := isAbsolute_iff.mp absolute
  have clean : ∀ part ∈ splitAt '/' rest, '/' ∉ part := fun _ => not_mem_of_mem_splitAt
  have read := filterMap_dropWhile_isFiller (splitAt '/' rest).reverse
  have components : path.components = .root :: (splitAt '/' rest).filterMap ofPart? := by
    rw [Path.components,spelled,componentsOf_absolute]
  rw [parent?_of_absolute spelled]
  cases parted : (splitAt '/' rest).reverse.dropWhile isFiller with
  | nil =>
    rw [parted,List.filterMap_reverse] at read
    refine .inl ⟨rfl,?_⟩
    rw [components,List.reverse_eq_nil_iff.mp read.symm]
  | cons last before =>
    have solid : ¬isFiller last = true := by
      have first := List.head?_dropWhile_not isFiller (splitAt '/' rest).reverse
      simpa [parted] using first
    obtain ⟨c,named⟩ := Option.ne_none_iff_exists'.mp fun none' => solid (isFiller_iff.mpr none')
    obtain ⟨after,fillers,whole⟩ : ∃ after fillers, splitAt '/' rest =
        (before.dropWhile isFiller).reverse ++ (after ++ last :: fillers) := by
      obtain ⟨fillers,later⟩ := List.dropWhile_suffix isFiller (l := (splitAt '/' rest).reverse)
      obtain ⟨after,earlier⟩ := List.dropWhile_suffix isFiller (l := before)
      refine ⟨after.reverse,fillers.reverse,?_⟩
      rw [← List.reverse_inj,← later,parted]
      nth_rewrite 1 [← earlier]
      simp only [List.reverse_append,List.reverse_cons,List.reverse_reverse,List.append_assoc,
        List.cons_append,List.nil_append]
    have front : ∀ part ∈ (before.dropWhile isFiller).reverse, '/' ∉ part := fun part inside =>
      clean part (whole ▸ List.mem_append_left _ inside)
    refine .inr ⟨_,c,rfl,?_,?_,?_⟩
    · exact isAbsolute_iff.mpr ⟨_,String.toList_ofList⟩
    · have named : (splitAt '/' rest).filterMap ofPart? =
          (before.dropWhile isFiller).reverse.filterMap ofPart? ++ [c] := by
        rw [parted,List.filterMap_reverse,List.filterMap_cons_some named] at read
        rw [← List.reverse_inj,← read,List.filterMap_reverse,filterMap_dropWhile_isFiller]
        simp
      rw [components,Path.components,String.toList_ofList,componentsOf_joined front,named]
      rfl
    · have full : last ≠ [] := by
        rintro rfl
        exact solid rfl
      have positive := List.length_pos_of_ne_nil full
      have short := length_joinWith_le (before.dropWhile isFiller).reverse
      have long := length_joinWith (splitAt_ne_nil '/' rest)
      rw [joinWith_splitAt,whole] at long
      simp only [List.map_append,List.sum_append,List.map_cons,List.sum_cons] at long
      rw [← String.length_toList,← String.length_toList,spelled,String.toList_ofList]
      simp only [List.length_cons]
      omega

theorem components_ancestorsWithin {limit : Nat} (absolute : path.isAbsolute = true)
    (short : path.text.length ≤ limit) :
    (path.ancestorsWithin limit).map components = path.components.inits.tail.reverse := by
  induction limit generalizing path with
  | zero =>
    obtain ⟨rest,spelled⟩ := isAbsolute_iff.mp absolute
    rw [← String.length_toList,spelled] at short
    exact absurd short (Nat.not_succ_le_zero _)
  | succ limit ih =>
    rw [ancestorsWithin]
    rcases parent?_cases absolute with ⟨top,alone⟩ | ⟨parent,last,up,absolute,parts,shorter⟩
    · rw [top,List.map_singleton,alone]
      rfl
    · have starts : parent.components.inits ≠ [] :=
        List.ne_nil_of_mem ((List.mem_inits [] _).mpr List.nil_prefix)
      rw [up,List.map_cons,parts,ih absolute (by omega),List.inits_append,
        List.tail_append_of_ne_nil starts]
      simp

/-- An absolute path and its parents have the starts of its components, each once and the longest first. -/
theorem components_ancestors (absolute : path.isAbsolute = true) :
    path.ancestors.map components = path.components.inits.tail.reverse :=
  components_ancestorsWithin absolute (Nat.le_refl _)

theorem pairwise_inits {α : Type} (items : List α) :
    items.inits.Pairwise fun short long => short.length < long.length := by
  induction items with
  | nil => exact List.pairwise_singleton _ _
  | cons item items ih =>
    rw [List.inits_cons,List.pairwise_cons,List.pairwise_map]
    refine ⟨fun later inside => ?_,ih.imp Nat.succ_lt_succ⟩
    obtain ⟨rest,_,rfl⟩ := List.mem_map.mp inside
    exact Nat.succ_pos _

theorem ancestors_deepestFirst (absolute : path.isAbsolute = true) :
    path.ancestors.Pairwise fun deep high => high.components.length < deep.components.length := by
  have lengths : (path.ancestors.map components).Pairwise fun deep high => high.length < deep.length := by
    rw [components_ancestors absolute,List.pairwise_reverse]
    exact (pairwise_inits _).sublist (List.tail_sublist _)
  exact List.pairwise_map.mp lengths

end Path

-- Marked folders

/-- A folder is marked by a file with the name of a marker; links to files count. -/
def Disk.Marks (disk : Disk) (markers : List String) (folder : Path) : Prop :=
  ∃ marker ∈ markers, ∃ location name bytes,
    disk.resolve true (folder.join ⟨marker⟩) = .ok ⟨location,.file name bytes⟩

theorem Disk.any_isFile_iff {disk : Disk} {markers : List String} {folder : Path} :
    (markers.any fun marker => disk.isFile (folder.join ⟨marker⟩)) = true ↔
      disk.Marks markers folder := by
  have file (path : Path) : disk.isFile path = true ↔
      ∃ location name bytes, disk.resolve true path = .ok ⟨location,.file name bytes⟩ := by
    rw [isFile]
    cases resolved : disk.resolve true path with
    | error fault => simp
    | ok found =>
      obtain ⟨location,entry⟩ := found
      cases entry <;> simp [Entry.isFile]
  simp only [List.any_eq_true,file,Marks]

theorem Disk.marks_congr {disk : Disk} {markers others : List String}
    (same : ∀ marker, marker ∈ others ↔ marker ∈ markers) (folder : Path) :
    disk.Marks others folder ↔ disk.Marks markers folder := by
  simp only [Marks,same]

/-- Where the search for a root starts: at the place that a path leads to, told by the folders down to it,
or at the path itself, taken from the working directory, if it leads nowhere. -/
inductive Disk.StartsAt (disk : Disk) (start : Path) : Path → Prop
  | found {trail : Disk.Trail} (checked : checkText (disk.currentPath.join start) = .ok ())
    (followed : disk.follow true (disk.currentPath.join start) = .ok ⟨trail.location,trail.entry disk.root⟩)
    (direct : Leads disk.root trail) : disk.StartsAt start (pathOf trail.location)
  | missing (nowhere : checkText (disk.currentPath.join start) = .ok () →
      ∀ found, disk.follow true (disk.currentPath.join start) ≠ .ok found) :
    disk.StartsAt start (disk.currentPath.join start)

theorem Disk.StartsAt.isAbsolute {disk : Disk} {start path : Path} (starts : disk.StartsAt start path) :
    path.isAbsolute = true := by
  have rooted (location : List String) : (pathOf location).isAbsolute = true :=
    Path.isAbsolute_iff.mpr ⟨_,String.toList_append⟩
  cases starts with
  | found => exact rooted _
  | missing => exact Path.isAbsolute_join (rooted _) start

theorem exists_start (disk : Disk) (start : Path) : ∃ path, disk.StartsAt start path ∧
    ∀ markers, findRoot disk start markers = (path.ancestors.find? fun folder =>
      markers.any fun marker => disk.isFile (folder.join ⟨marker⟩)).getD disk.currentPath := by
  refine ⟨_,?_,fun markers => rfl⟩
  rw [Disk.canonical?]
  split
  · next found followed =>
    obtain ⟨_,checked,followed⟩ := bind_eq_ok_iff.mp followed
    obtain ⟨from',started,later⟩ := bind_eq_ok_iff.mp followed
    obtain ⟨trail,walked,returned⟩ := bind_eq_ok_iff.mp later
    cases returned
    exact .found checked followed ((way_of_walkParts walked).leads (leads_of_startOf started))
  · next fault failed =>
    refine .missing fun checked found followed => ?_
    cases failed.symm.trans (bind_eq_ok_iff.mpr ⟨(),checked,followed⟩)

/-- The nearest of the marked folders at a path or above it. -/
structure Disk.Nearest (disk : Disk) (markers : List String) (path folder : Path) : Prop where
  above : folder ∈ path.ancestors
  marked : disk.Marks markers folder
  deepest : ∀ other ∈ path.ancestors, folder.components.length < other.components.length →
    ¬disk.Marks markers other

theorem nearest_of_find? {disk : Disk} {markers : List String} {path folder : Path}
    (absolute : path.isAbsolute = true) (found : path.ancestors.find? (fun folder =>
      markers.any fun marker => disk.isFile (folder.join ⟨marker⟩)) = some folder) :
    disk.Nearest markers path folder := by
  obtain ⟨marked,deeper,higher,parted,unmarked⟩ := List.find?_eq_some_iff_append.mp found
  have order := Path.ancestors_deepestFirst absolute
  rw [parted] at order
  refine ⟨List.mem_of_find?_eq_some found,Disk.any_isFile_iff.mp marked,fun other inside longer marks => ?_⟩
  rw [parted] at inside
  -- What is deeper than the folder found stands before it and was passed over.
  rcases List.mem_append.mp inside with before | here | after
  · have passed := unmarked other before
    rw [Disk.any_isFile_iff.mpr marks] at passed
    exact Bool.false_ne_true passed
  · exact Nat.lt_irrefl _ longer
  · have shorter := (List.pairwise_cons.mp (List.pairwise_append.mp order).2.1).1 other (by assumption)
    exact Nat.lt_asymm longer shorter

/-- The root of a project is the deepest marked folder at the place where the search starts or above it,
and the working directory if none is marked. Only which markers there are matters. -/
theorem findRoot_nearest (disk : Disk) (start : Path) (markers : List String) :
    ∃ path, disk.StartsAt start path ∧ path.isAbsolute = true ∧
      path.ancestors.map Path.components = path.components.inits.tail.reverse ∧
      (disk.Nearest markers path (findRoot disk start markers) ∨
        (∀ folder ∈ path.ancestors, ¬disk.Marks markers folder) ∧
          findRoot disk start markers = disk.currentPath) ∧
      ∀ others, (∀ marker, marker ∈ others ↔ marker ∈ markers) →
        findRoot disk start others = findRoot disk start markers := by
  obtain ⟨path,starts,searched⟩ := exists_start disk start
  have absolute := starts.isAbsolute
  refine ⟨path,starts,absolute,Path.components_ancestors absolute,?_,?_⟩
  · rw [searched]
    cases found : path.ancestors.find? _ with
    | some folder => exact .inl (nearest_of_find? absolute found)
    | none =>
      refine .inr ⟨fun folder inside marks => ?_,rfl⟩
      exact List.find?_eq_none.mp found folder inside (Disk.any_isFile_iff.mpr marks)
  · intro others same
    have marked (folder : Path) : (others.any fun marker => disk.isFile (folder.join ⟨marker⟩)) =
        markers.any fun marker => disk.isFile (folder.join ⟨marker⟩) :=
      Bool.eq_iff_iff.mpr (Disk.any_isFile_iff.trans
        ((Disk.marks_congr same folder).trans Disk.any_isFile_iff.symm))
    simp only [searched,marked]

end SourceAtlas
