import Mathlib.Logic.Relation
import SourceAtlas.Proofs.PathKey
import SourceAtlas.SourceFilter

/-! The spellings of a path. Separators with nothing or a single dot between them are one separator, and at
the end of a text they are none; two texts are one path exactly if such steps lead from one to the other.
The key is the spelling to which all others lead. -/
namespace SourceAtlas

open Text

namespace Component

theorem exists_ofPart? {part : List Char} (solid : Path.isFiller part = false) :
    ∃ c, ofPart? part = some c ∧ c.text.toList = part := by
  have full : ¬(part = [] ∨ part = ['.']) := by simpa [Path.isFiller] using solid
  rw [ofPart?,if_neg full]
  split
  · next same => exact ⟨up,rfl,same.symm⟩
  · exact ⟨_,rfl,String.toList_ofList⟩

/-- The components after the first one spell the parts that are no fillers. -/
theorem texts_filterMap (parts : List (List Char)) :
    (parts.filterMap ofPart?).map (fun c => c.text.toList) = parts.filter (!Path.isFiller ·) := by
  induction parts with
  | nil => rfl
  | cons part parts ih =>
    cases filler : Path.isFiller part with
    | true => rw [List.filterMap_cons_none (Path.isFiller_iff.mp filler),ih,List.filter_cons,filler]; rfl
    | false =>
      obtain ⟨c,read,spelled⟩ := exists_ofPart? filler
      rw [List.filterMap_cons_some read,List.map_cons,spelled,ih,List.filter_cons,filler]
      rfl

end Component

namespace Path

open Component

/-- One step between two spellings: a separator is taken out with the filler after it, before another
separator or at the end of the text. -/
inductive Respelled : List Char → List Char → Prop
  | inner {part : List Char} (front back : List Char) (filler : isFiller part = true) :
    Respelled (front ++ '/' :: (part ++ '/' :: back)) (front ++ '/' :: back)
  | last {front part : List Char} (some : front ≠ []) (filler : isFiller part = true) :
    Respelled (front ++ '/' :: part) front

-- Steps keep the components

theorem not_mem_of_isFiller {part : List Char} (filler : isFiller part = true) : '/' ∉ part := by
  rcases (by simpa [isFiller] using filler : part = [] ∨ part = ['.']) with rfl | rfl <;> decide

theorem Respelled.components_eq {text other : List Char} (step : Respelled text other) :
    componentsOf text = componentsOf other := by
  cases step with
  | @inner part front back filler =>
    have clean := not_mem_of_isFiller filler
    have parted : splitAt '/' (part ++ '/' :: back) = part :: splitAt '/' back := by
      rw [splitAt_append_separator,splitAt_of_not_mem clean]
      rfl
    have same : (splitAt '/' (part ++ '/' :: back)).filterMap ofPart? =
        (splitAt '/' back).filterMap ofPart? := by
      rw [parted,List.filterMap_cons_none (isFiller_iff.mp filler)]
    by_cases start : front = []
    · subst start
      exact congrArg (Component.root :: ·) same
    · rw [componentsOf_append start,componentsOf_append start,same]
  | @last _ part some filler =>
    rw [componentsOf_append_part some (not_mem_of_isFiller filler),List.filterMap_cons_none
      (isFiller_iff.mp filler)]
    exact List.append_nil _

-- Steps lead to the key

theorem joinWith_cons_eq_flatMap (part : List Char) (parts : List (List Char)) :
    joinWith ['/'] (part :: parts) = part ++ parts.flatMap ('/' :: ·) := by
  induction parts generalizing part with
  | nil => simp [joinWith]
  | cons next parts ih =>
    rw [joinWith_cons (List.cons_ne_nil next parts),ih,List.flatMap_cons,List.append_assoc]
    rfl

/-- After a text that is not empty all fillers can be taken out, by induction on the parts from the left. -/
theorem respelled_parts {front : List Char} (some : front ≠ []) (parts : List (List Char)) :
    Relation.ReflTransGen Respelled (front ++ parts.flatMap ('/' :: ·))
      (front ++ (parts.filter (!isFiller ·)).flatMap ('/' :: ·)) := by
  induction parts generalizing front with
  | nil => exact .refl
  | cons part parts ih =>
    rw [List.filter_cons,List.flatMap_cons]
    cases filler : isFiller part with
    | true =>
      refine .head ?_ (ih some)
      cases parts with
      | nil => simpa using Respelled.last some filler
      | cons next parts => simpa using Respelled.inner front (next ++ parts.flatMap ('/' :: ·)) filler
    | false =>
      rw [← List.append_assoc]
      have later := ih (List.append_ne_nil_of_left_ne_nil some ('/' :: part))
      simpa using later

theorem keyText_cons (first : Component) (parts : List (List Char)) :
    keyText (first :: parts.filterMap ofPart?) =
      first.text.toList ++ (parts.filter (!isFiller ·)).flatMap ('/' :: ·) := by
  rw [keyText,List.map_cons,texts_filterMap,joinWith_cons_eq_flatMap]

/-- Every spelling of a path is connected to its key. -/
theorem connected_keyText (text : List Char) :
    Relation.EqvGen Respelled text (keyText (componentsOf text)) := by
  by_cases absolute : text.head? = some '/'
  · obtain ⟨rest,rfl⟩ := List.head?_eq_some_iff.mp absolute
    obtain ⟨part,parts,parted⟩ := List.exists_cons_of_ne_nil (splitAt_ne_nil '/' rest)
    have spelled : part ++ parts.flatMap ('/' :: ·) = rest := by
      rw [← joinWith_cons_eq_flatMap,← parted,joinWith_splitAt]
    have empty : isFiller [] = true := rfl
    have doubled : Respelled ('/' :: '/' :: rest) ('/' :: rest) := .inner [] rest empty
    have taken := respelled_parts (List.cons_ne_nil '/' []) (part :: parts)
    have start : ['/'] ++ (part :: parts).flatMap ('/' :: ·) = '/' :: '/' :: rest := by
      rw [← spelled]
      rfl
    rw [start] at taken
    rw [componentsOf_absolute,parted,keyText_cons]
    exact .trans _ _ _ (.symm _ _ (.rel _ _ doubled)) (Relation.EqvGen.reflTransGen_le_eqvGen Respelled _ _ taken)
  · obtain ⟨part,parts,parted⟩ := List.exists_cons_of_ne_nil (splitAt_ne_nil '/' text)
    have spelled : part ++ parts.flatMap ('/' :: ·) = text := by
      rw [← joinWith_cons_eq_flatMap,← parted,joinWith_splitAt]
    by_cases empty : part = []
    · have none : text = [] := by
        subst empty
        cases parts with
        | nil => exact spelled.symm
        | cons next parts => exact absurd (spelled ▸ rfl) absolute
      subst none
      exact .refl _
    · have taken := Relation.EqvGen.reflTransGen_le_eqvGen Respelled _ _ (respelled_parts empty parts)
      rw [spelled] at taken
      rw [componentsOf_relative absolute,parted]
      by_cases here : part = ['.']
      · subst here
        exact (keyText_cons .here parts).symm ▸ taken
      · have solid : isFiller part = false := by simp [isFiller,empty,here]
        obtain ⟨c,read,same⟩ := exists_ofPart? solid
        rw [relativeComponents_of_ne (by simpa using here),List.filterMap_cons_some read,keyText_cons,same]
        exact taken

/-- Two texts are one path exactly if steps lead from one to the other. -/
theorem connected_iff {text other : List Char} :
    Relation.EqvGen Respelled text other ↔ componentsOf text = componentsOf other := by
  constructor
  · intro connected
    induction connected with
    | rel _ _ step => exact step.components_eq
    | refl => rfl
    | symm _ _ _ ih => exact ih.symm
    | trans _ _ _ _ _ first second => exact first.trans second
  · intro same
    refine .trans _ _ _ (connected_keyText text) ?_
    rw [same]
    exact .symm _ _ (connected_keyText other)

-- Keys

/-- The key of a path is a spelling of it, the same one for all its spellings and for no other path, and
which files are sources does not depend on how their paths are spelled. -/
theorem key_spelling (path : Path) :
    (Path.mk path.key).same path = true ∧ (Path.mk path.key).key = path.key ∧
    ∀ other : Path, (path.key = other.key ↔ path.same other = true) ∧
      (path.same other = true ↔ Relation.EqvGen Respelled path.text.toList other.text.toList) ∧
      (path.same other = true → ∀ filter : SourceFilter, filter.isSource path = filter.isSource other) := by
  have again : (Path.mk path.key).components = path.components := components_keyOf (components_proper path)
  have same (other : Path) : path.same other = true ↔ path.components = other.components := decide_eq_true_iff
  refine ⟨decide_eq_true again,by rw [key,again,key],fun other => ⟨?_,?_,?_⟩⟩
  · rw [same]
    exact ⟨keyOf_injective (components_proper path) (components_proper other),congrArg keyOf⟩
  · rw [same]
    exact connected_iff.symm
  · intro spelled filter
    have keys : path.key = other.key := congrArg keyOf ((same other).mp spelled)
    rw [SourceFilter.isSource,SourceFilter.isSource,keys]

end Path

end SourceAtlas
