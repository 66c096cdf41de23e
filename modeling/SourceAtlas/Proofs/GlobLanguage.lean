import Mathlib.Computability.Language
import SourceAtlas.Glob.Match

/-! The byte texts that a glob pattern stands for, as a language made of those of its tokens. Matching by
masks accepts exactly the texts of this language. -/
namespace SourceAtlas.Glob

-- Languages of tokens

/-- Texts all of whose items pass a test. -/
def runs {α : Type} (test : α → Bool) : Language α := {text : List α | ∀ item ∈ text, test item = true}

/-- Texts of one item, which passes a test. -/
def singles {α : Type} (test : α → Bool) : Language α := {text : List α | ∃ item, text = [item] ∧ test item = true}

def everything {α : Type} : Language α := runs fun _ => true

mutual

/-- A group whose branches are all void stands for nothing; beside others, void branches do not count. -/
def Token.language (separated : Bool) : Token → Language UInt8
  | .literal c => {String.utf8EncodeChar c}
  | .anyOne => singles (spansByte separated)
  | .anyRun => runs (spansByte separated)
  | .recursivePrefix => 1 + everything * {[separator]}
  | .recursiveSuffix => {[separator]} * everything
  | .recursiveMiddle => {[separator]} * (1 + everything * {[separator]})
  | .characterClass negated ranges => singles fun b => inRanges (classRanges ranges) b != negated
  | .alternatives branches => if branchesVoid branches then 1 else branchesLanguage separated branches

def sequenceLanguage (separated : Bool) : List Token → Language UInt8
  | [] => 1
  | token :: tokens => token.language separated * sequenceLanguage separated tokens

def branchesLanguage (separated : Bool) : List (List Token) → Language UInt8
  | [] => 0
  | branch :: branches =>
    if branchVoid branch then branchesLanguage separated branches
    else sequenceLanguage separated branch + branchesLanguage separated branches

end

-- Masks

namespace Mask

variable {text : Bytes} {mask middle result other : Mask} {L M : Language UInt8}

/-- A mask marks what is left of a text after a front. -/
def Marks (mask : Mask) (front : Bytes) : Prop := mask[front.length]? = some true

/-- A mask has a flag for each end of a text. -/
def Fits (text : Bytes) (mask : Mask) : Prop := mask.length = text.length + 1

/-- The ends that a result marks are those that texts of a language lead to from the ones of a mask. -/
structure Leads (text : Bytes) (L : Language UInt8) (mask result : Mask) : Prop where
  fits : Fits text result
  marks : ∀ front rest, text = front ++ rest →
    (result.Marks front ↔ ∃ before piece, front = before ++ piece ∧ mask.Marks before ∧ piece ∈ L)

theorem Fits.getElem? (fits : Fits text mask) {front rest : Bytes} (parted : text = front ++ rest) :
    ∃ flag, mask[front.length]? = some flag := by
  have length : mask.length = (front ++ rest).length + 1 := parted ▸ fits
  rw [List.length_append] at length
  exact ⟨_,List.getElem?_eq_getElem (by omega)⟩

theorem leads_one (fits : Fits text mask) : Leads text 1 mask mask where
  fits := fits
  marks front rest parted := by
    constructor
    · intro marked
      exact ⟨front,[],(List.append_nil front).symm,marked,rfl⟩
    · rintro ⟨before,piece,rfl,marked,rfl⟩
      rwa [List.append_nil]

theorem leads_zero (fits : Fits text mask) : Leads text 0 mask (mask.map fun _ => false) where
  fits := by rw [Fits,List.length_map,fits]
  marks front rest parted := by
    constructor
    · intro marked
      rw [Marks,List.getElem?_map] at marked
      simp at marked
    · rintro ⟨_,_,_,_,none⟩
      exact none.elim

theorem leads_add (first : Leads text L mask result) (second : Leads text M mask other) :
    Leads text (L + M) mask (result.union other) where
  fits := by
    have left : result.length = text.length + 1 := first.fits
    have right : other.length = text.length + 1 := second.fits
    rw [Fits,union,List.length_zipWith,left,right,Nat.min_self]
  marks front rest parted := by
    obtain ⟨flag,here⟩ := first.fits.getElem? parted
    obtain ⟨flagOther,there⟩ := second.fits.getElem? parted
    have united : (result.union other).Marks front ↔ result.Marks front ∨ other.Marks front := by
      simp [Marks,union,List.getElem?_zipWith,here,there]
    rw [united,first.marks front rest parted,second.marks front rest parted]
    constructor
    · rintro (⟨before,piece,same,marked,inside⟩ | ⟨before,piece,same,marked,inside⟩)
      · exact ⟨before,piece,same,marked,.inl inside⟩
      · exact ⟨before,piece,same,marked,.inr inside⟩
    · rintro ⟨before,piece,same,marked,inside | inside⟩
      · exact .inl ⟨before,piece,same,marked,inside⟩
      · exact .inr ⟨before,piece,same,marked,inside⟩

theorem leads_mul (first : Leads text L mask middle) (second : Leads text M middle result) :
    Leads text (L * M) mask result where
  fits := second.fits
  marks front rest parted := by
    rw [second.marks front rest parted]
    constructor
    · rintro ⟨before,piece,rfl,marked,inside⟩
      obtain ⟨start,front,rfl,known,member⟩ :=
        (first.marks before (piece ++ rest) (by rw [parted,List.append_assoc])).mp marked
      exact ⟨start,front ++ piece,List.append_assoc ..,known,Language.append_mem_mul member inside⟩
    · rintro ⟨start,pieces,rfl,known,inside⟩
      obtain ⟨front,member,piece,last,rfl⟩ := Language.mem_mul.mp inside
      refine ⟨start ++ front,piece,(List.append_assoc ..).symm,?_,last⟩
      exact (first.marks (start ++ front) (piece ++ rest) (by simp [parted])).mpr ⟨start,front,rfl,known,member⟩

theorem leads_step (test : UInt8 → Bool) (fits : Fits text mask) :
    Leads text (singles test) mask (mask.step test text) where
  fits := by
    have length : mask.length = text.length + 1 := fits
    rw [Fits,step,List.length_cons,List.length_zipWith,length,Nat.min_eq_left (Nat.le_succ _)]
  marks front rest parted := by
    obtain rfl | ⟨before,b,rfl⟩ := List.eq_nil_or_concat front
    · constructor
      · intro marked
        simp [Marks,step] at marked
      · rintro ⟨before,piece,empty,_,b,rfl,_⟩
        simp at empty
    · rw [List.concat_eq_append] at parted ⊢
      have read : text[before.length]? = some b := by simp [parted]
      have stepped : (mask.step test text).Marks (before ++ [b]) ↔ mask.Marks before ∧ test b = true := by
        rw [Marks,step,List.length_append,List.length_singleton,List.getElem?_cons_succ,
          List.getElem?_zipWith,read,Marks]
        cases mask[before.length]? with
        | none => simp
        | some flag => simp
      rw [stepped]
      constructor
      · rintro ⟨marked,passed⟩
        exact ⟨before,[b],rfl,marked,b,rfl,passed⟩
      · rintro ⟨other,piece,same,marked,c,rfl,passed⟩
        obtain ⟨rfl,last⟩ := List.append_inj' same rfl
        cases last
        exact ⟨marked,passed⟩

theorem marks_spreadFrom {test : UInt8 → Bool} {reached : Bool} (fits : Fits text mask) (front rest : Bytes)
    (parted : text = front ++ rest) : Marks (spreadFrom test reached text mask) front ↔
      (reached = true ∧ ∀ b ∈ front, test b = true) ∨
        ∃ before piece, front = before ++ piece ∧ mask.Marks before ∧ ∀ b ∈ piece, test b = true := by
  induction text generalizing mask reached front with
  | nil =>
    obtain ⟨rfl,rfl⟩ := List.append_eq_nil_iff.mp parted.symm
    obtain ⟨flag,rfl⟩ := List.length_eq_one_iff.mp fits
    simp [Marks,spreadFrom]
  | cons b text ih =>
    obtain ⟨flag,mask,rfl⟩ := List.exists_cons_of_length_eq_add_one fits
    have later : Fits text mask := Nat.succ.inj fits
    cases front with
    | nil => simp [Marks,spreadFrom]
    | cons c front =>
      obtain ⟨rfl,partedText⟩ := List.cons.inj parted
      have moved : Marks (spreadFrom test reached (b :: text) (flag :: mask)) (b :: front) ↔
          Marks (spreadFrom test ((reached || flag) && test b) text mask) front := by
        simp [Marks,spreadFrom]
      rw [moved,ih later front partedText,List.forall_mem_cons]
      constructor
      · rintro (⟨begun,passed⟩ | ⟨before,piece,rfl,marked,passed⟩)
        · obtain ⟨begun | begun,here⟩ : (reached = true ∨ flag = true) ∧ test b = true := by simpa using begun
          · exact .inl ⟨begun,here,passed⟩
          · exact .inr ⟨[],b :: front,rfl,by simpa [Marks] using begun,List.forall_mem_cons.mpr ⟨here,passed⟩⟩
        · exact .inr ⟨b :: before,piece,rfl,by simpa [Marks] using marked,passed⟩
      · rintro (⟨begun,here,passed⟩ | ⟨before,piece,same,marked,passed⟩)
        · exact .inl ⟨by simp [begun,here],passed⟩
        · cases before with
          | nil =>
            obtain rfl : b :: front = piece := same
            obtain ⟨here,others⟩ := List.forall_mem_cons.mp passed
            have begun : flag = true := by simpa [Marks] using marked
            exact .inl ⟨by simp [begun,here],others⟩
          | cons d before =>
            obtain ⟨rfl,rfl⟩ := List.cons.inj same
            exact .inr ⟨before,piece,rfl,by simpa [Marks] using marked,passed⟩

theorem length_spreadFrom {test : UInt8 → Bool} {reached : Bool} :
    (spreadFrom test reached text mask).length = mask.length := by
  induction text generalizing mask reached with
  | nil => rw [spreadFrom,List.length_map]; simp
  | cons b text ih =>
    cases mask with
    | nil => rfl
    | cons flag mask => rw [spreadFrom,List.length_cons,ih,List.length_cons]

theorem leads_spread (test : UInt8 → Bool) (fits : Fits text mask) :
    Leads text (runs test) mask (mask.spread test text) where
  fits := by rw [Fits,spread,length_spreadFrom,fits]
  marks front rest parted := by
    rw [spread,marks_spreadFrom fits front rest parted]
    exact or_iff_right fun never => Bool.false_ne_true never.1

theorem leads_stepAll (bytes : Bytes) (fits : Fits text mask) :
    Leads text {bytes} mask (mask.stepAll bytes text) := by
  induction bytes generalizing mask with
  | nil => exact leads_one fits
  | cons b bytes ih =>
    have first := leads_step (· == b) fits
    have both : ({b :: bytes} : Language UInt8) = singles (· == b) * {bytes} := by
      ext piece
      rw [Language.mem_mul]
      constructor
      · rintro rfl
        exact ⟨[b],⟨b,rfl,beq_self_eq_true b⟩,bytes,rfl,rfl⟩
      · rintro ⟨_,⟨c,rfl,same⟩,_,rfl,rfl⟩
        rw [eq_of_beq same]
        rfl
    rw [both]
    exact leads_mul first (ih first.fits)

theorem leads_stepSeparator (fits : Fits text mask) :
    Leads text {[separator]} mask (mask.stepSeparator text) := leads_stepAll [separator] fits

theorem leads_spreadAll (fits : Fits text mask) : Leads text everything mask (mask.spreadAll text) :=
  leads_spread _ fits

/-- The ends after any text that a separator closes, and the marked ones themselves. -/
theorem leads_folders (fits : Fits text mask) : Leads text (1 + everything * {[separator]}) mask
    (mask.union ((mask.spreadAll text).stepSeparator text)) := by
  have spread := leads_spreadAll fits
  exact leads_add (leads_one fits) (leads_mul spread (leads_stepSeparator spread.fits))

end Mask

-- Matching

open Mask

variable {separated : Bool} {text : Bytes}

mutual

theorem Token.leads_pass (token : Token) {mask : Mask} (fits : Fits text mask) :
    Leads text (token.language separated) mask (token.pass separated text mask) := by
  cases token with
  | literal c => exact leads_stepAll _ fits
  | anyOne => exact leads_step _ fits
  | anyRun => exact leads_spread _ fits
  | recursivePrefix => exact leads_folders fits
  | recursiveSuffix =>
    have inside := leads_stepSeparator fits
    exact leads_mul inside (leads_spreadAll inside.fits)
  | recursiveMiddle =>
    have inside := leads_stepSeparator fits
    exact leads_mul inside (leads_folders inside.fits)
  | characterClass negated ranges => exact leads_step _ fits
  | alternatives branches =>
    rw [Token.language,Token.pass]
    split
    · exact leads_one fits
    · exact leads_branchesPass branches fits

theorem leads_passAll (tokens : List Token) {mask : Mask} (fits : Fits text mask) :
    Leads text (sequenceLanguage separated tokens) mask (passAll separated text mask tokens) := by
  cases tokens with
  | nil => exact leads_one fits
  | cons token tokens =>
    have first := token.leads_pass fits
    exact leads_mul first (leads_passAll tokens first.fits)

theorem leads_branchesPass (branches : List (List Token)) {mask : Mask} (fits : Fits text mask) :
    Leads text (branchesLanguage separated branches) mask (branchesPass separated text mask branches) := by
  cases branches with
  | nil => exact leads_zero fits
  | cons branch branches =>
    have others := leads_branchesPass branches fits
    rw [branchesLanguage,branchesPass]
    split
    · exact others
    · exact leads_add (leads_passAll branch fits) others

end

/-- The masks of a pattern accept the texts of its language. Two stars alone stand for every text. -/
theorem Pattern.spans_iff (pattern : Pattern) (text : Bytes) : pattern.spans text = true ↔
    pattern.tokens = [.recursivePrefix] ∨ text ∈ sequenceLanguage pattern.separated pattern.tokens := by
  unfold spans
  split
  · next alone => exact iff_of_true rfl (.inl alone)
  · next several =>
    have fits : Fits text (.whole text) := by simp [Fits,whole]
    have leads : Leads text (sequenceLanguage pattern.separated pattern.tokens) (.whole text)
        (passAll pattern.separated text (.whole text) pattern.tokens) := leads_passAll pattern.tokens fits
    have last : complete (passAll pattern.separated text (.whole text) pattern.tokens) = true ↔
        Marks (passAll pattern.separated text (.whole text) pattern.tokens) text := by
      have length := leads.fits
      rw [Fits] at length
      rw [complete,List.getLast?_eq_getElem?,length,Nat.add_sub_cancel,Marks]
      cases (passAll pattern.separated text (.whole text) pattern.tokens)[text.length]? <;> simp
    have start {front : Bytes} : Marks (.whole text) front ↔ front = [] := by
      cases front with
      | nil => simp [Marks,whole]
      | cons b front => simp [Marks,whole,List.getElem?_replicate]
    rw [last,leads.marks text [] (List.append_nil text).symm,or_iff_right several]
    constructor
    · rintro ⟨before,piece,parted,marked,inside⟩
      obtain rfl := start.mp marked
      exact parted ▸ inside
    · intro inside
      exact ⟨[],text,rfl,start.mpr rfl,inside⟩

end SourceAtlas.Glob
