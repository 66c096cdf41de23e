import Mathlib.Data.List.Basic
import SourceAtlas.Yaml.BlockScalar
import SourceAtlas.Yaml.Writer

/-! Where the characters of a written text stand. Writing uses no carriage return, tab or byte order
mark as it is, so that every character has a spot of its own. -/
namespace SourceAtlas.Yaml

/-- A place between the characters of a text. -/
structure Cursor where
  index : Nat
  line : Nat
  column : Nat

namespace Cursor

def after (cursor : Cursor) (c : Char) : Cursor :=
  if isBreak c then ⟨cursor.index + c.utf8Size,cursor.line + 1,0⟩
  else ⟨cursor.index + c.utf8Size,cursor.line,cursor.column + 1⟩

/-- The place after a text that starts here. -/
def past (cursor : Cursor) (text : List Char) : Cursor := text.foldl after cursor

def spot (cursor : Cursor) (c : Char) : Spot := ⟨c,cursor.index,cursor.line,cursor.column⟩

def spots (cursor : Cursor) : List Char → List Spot
  | [] => []
  | c :: rest => cursor.spot c :: (cursor.after c).spots rest

@[simp] theorem spot_char (cursor : Cursor) (c : Char) : (cursor.spot c).char = c := rfl

@[simp] theorem spot_column (cursor : Cursor) (c : Char) : (cursor.spot c).column = cursor.column := rfl

theorem spots_nil (cursor : Cursor) : cursor.spots [] = [] := rfl

theorem spots_cons (cursor : Cursor) (c : Char) (rest : List Char) :
    cursor.spots (c :: rest) = cursor.spot c :: (cursor.after c).spots rest := rfl

theorem past_nil (cursor : Cursor) : cursor.past [] = cursor := rfl

theorem past_cons (cursor : Cursor) (c : Char) (rest : List Char) :
    cursor.past (c :: rest) = (cursor.after c).past rest := rfl

theorem past_append (cursor : Cursor) (first second : List Char) :
    cursor.past (first ++ second) = (cursor.past first).past second := List.foldl_append

theorem spots_append (cursor : Cursor) (first second : List Char) :
    cursor.spots (first ++ second) = cursor.spots first ++ (cursor.past first).spots second := by
  induction first generalizing cursor with
  | nil => rfl
  | cons c rest ih => rw [List.cons_append,spots_cons,spots_cons,ih,List.cons_append,past_cons]

theorem length_spots (cursor : Cursor) (text : List Char) : (cursor.spots text).length = text.length := by
  induction text generalizing cursor with
  | nil => rfl
  | cons c rest ih => rw [spots_cons,List.length_cons,List.length_cons,ih]

theorem column_after {cursor : Cursor} {c : Char} (inLine : isBreak c = false) :
    (cursor.after c).column = cursor.column + 1 := by simp [after,inLine]

theorem column_after_break {cursor : Cursor} {c : Char} (ends : isBreak c = true) :
    (cursor.after c).column = 0 := by simp [after,ends]

theorem column_past {cursor : Cursor} {text : List Char} (inLine : ∀ c ∈ text, isBreak c = false) :
    (cursor.past text).column = cursor.column + text.length := by
  induction text generalizing cursor with
  | nil => rfl
  | cons c rest ih =>
    obtain ⟨here,later⟩ := List.forall_mem_cons.mp inLine
    rw [past_cons,ih later,column_after here,List.length_cons]
    omega

theorem line_past {cursor : Cursor} {text : List Char} (inLine : ∀ c ∈ text, isBreak c = false) :
    (cursor.past text).line = cursor.line := by
  induction text generalizing cursor with
  | nil => rfl
  | cons c rest ih =>
    obtain ⟨here,later⟩ := List.forall_mem_cons.mp inLine
    rw [past_cons,ih later]
    simp [after,here]

theorem index_past_le (cursor : Cursor) (text : List Char) :
    (cursor.past text).index ≤ cursor.index + 4 * text.length := by
  induction text generalizing cursor with
  | nil => exact Nat.le_refl _
  | cons c rest ih =>
    have size := Char.utf8Size_le_four c
    have next : (cursor.after c).index = cursor.index + c.utf8Size := by
      unfold after
      split <;> rfl
    have later := ih (cursor.after c)
    rw [past_cons,List.length_cons]
    omega

theorem column_past_of_getLast? {cursor : Cursor} {text : List Char}
    (ends : text.getLast?.any isBreak = true) : (cursor.past text).column = 0 := by
  cases last : text.getLast? with
  | none => simp [last] at ends
  | some c =>
    obtain ⟨front,rfl⟩ := List.getLast?_eq_some_iff.mp last
    rw [last] at ends
    rw [past_append,past_cons,past_nil,column_after_break ends]

end Cursor

-- Printable characters

/-- A text in characters that are written as they are. -/
def Printable (text : List Char) : Prop := ∀ c ∈ text, isPrintable c = true

instance (text : List Char) : Decidable (Printable text) :=
  List.decidableBAll (fun c => isPrintable c = true) text

theorem printable_indentation (atStart : Bool) : Printable (if atStart then indentation else []) := by
  cases atStart <;> decide

theorem indentation_inLine : ∀ c ∈ indentation, isBreak c = false := by simp [indentation,isBreak]

theorem isAllowed_of_isPrintable {c : Char} (printable : isPrintable c = true) : isAllowed c = true := by
  simp only [isPrintable,isAllowed,Bool.or_eq_true,Bool.and_eq_true,decide_eq_true_eq,beq_iff_eq,bne_iff_ne]
    at printable ⊢
  omega

theorem ne_of_isPrintable {c other : Char} (printable : isPrintable c = true)
    (no : isPrintable other = false) : c ≠ other := by
  rintro rfl
  simp [printable] at no

theorem breakChar_of_isPrintable {c : Char} (printable : isPrintable c = true)
    (ends : isBreak c = true) : breakChar c = c := by
  have carriage : c ≠ '\r' := ne_of_isPrintable printable (by decide)
  have next : c ≠ '\x85' := ne_of_isPrintable printable (by decide)
  simp only [isBreak,Bool.or_eq_true,beq_iff_eq] at ends
  unfold breakChar
  rcases ends with (((rfl | rfl) | rfl) | rfl) | rfl
  · rfl
  · exact absurd rfl carriage
  · exact absurd rfl next
  · rfl
  · rfl

/-- A blank that is written as it is is a space. -/
theorem eq_space_of_isBlank {c : Char} (printable : isPrintable c = true) (blank : isBlank c = true) :
    c = ' ' := by
  have tab : c ≠ '\t' := ne_of_isPrintable printable (by decide)
  simpa [isBlank,tab] using blank

theorem spotsFrom_of_printable {text : List Char} (printable : Printable text) (cursor : Cursor) :
    spotsFrom cursor.index cursor.line cursor.column text = cursor.spots text := by
  induction text generalizing cursor with
  | nil => rfl
  | cons c rest ih =>
    obtain ⟨here,later⟩ := List.forall_mem_cons.mp printable
    have carriage : c ≠ '\r' := ne_of_isPrintable here (by decide)
    have next := ih later (cursor.after c)
    unfold spotsFrom
    split
    · next shape => cases shape
    · next shape => exact absurd (List.cons.inj shape).1 carriage
    · next d other _ shape =>
      cases shape
      rw [Cursor.spots_cons,← next]
      cases ends : isBreak c with
      | true => simp [Cursor.after,Cursor.spot,ends,breakChar_of_isPrintable here ends]
      | false => simp [Cursor.after,Cursor.spot,ends]

theorem spots?_of_printable {text : List Char} (printable : Printable text) :
    spots? text = some (Cursor.spots ⟨0,0,0⟩ text) := by
  have allowed : text.all isAllowed = true :=
    List.all_eq_true.mpr fun c inside => isAllowed_of_isPrintable (printable c inside)
  rw [spots?,if_pos allowed,spotsFrom_of_printable printable ⟨0,0,0⟩]

end SourceAtlas.Yaml
