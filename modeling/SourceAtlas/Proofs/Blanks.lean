import Mathlib.Data.List.DropRight
import SourceAtlas.Proofs.Parts
import SourceAtlas.Text.Blank
import SourceAtlas.Text.Word

/-! Blanks at the ends of a text, and the lines of a text. -/
namespace SourceAtlas.Text

variable {text front back : List Char} {c : Char}

theorem not_test_of_mem_getLast?_rdropWhile {α : Type} (test : α → Bool) (items : List α) :
    ∀ item ∈ (items.rdropWhile test).getLast?, test item = false := by
  intro item last
  have some : items.rdropWhile test ≠ [] := by
    intro none
    rw [none] at last
    cases last
  cases last.symm.trans (List.getLast?_eq_some_getLast some)
  exact Bool.eq_false_iff.mpr (List.rdropWhile_last_not test items some)

/-- The code points of Unicode that have the property White_Space. -/
def whiteSpace : List Nat :=
  [9,10,11,12,13,0x20,0x85,0xA0,0x1680,0x2000,0x2001,0x2002,0x2003,0x2004,0x2005,0x2006,0x2007,0x2008,0x2009,
    0x200A,0x2028,0x2029,0x202F,0x205F,0x3000]

theorem isBlank_iff : isBlank c = true ↔ c.toNat ∈ whiteSpace := by
  simp only [isBlank,whiteSpace,Bool.or_eq_true,Bool.and_eq_true,decide_eq_true_eq,beq_iff_eq,List.mem_cons,
    List.not_mem_nil,or_false]
  omega

def Blanks (text : List Char) : Prop := ∀ c ∈ text, isBlank c = true

theorem Blanks.nil : Blanks [] := fun _ inside => absurd inside List.not_mem_nil

theorem trimStart_of_blanks (blanks : Blanks text) : trimStart text = [] :=
  List.dropWhile_eq_nil_iff.mpr blanks

theorem trimStart_append (blanks : Blanks front) (back : List Char) :
    trimStart (front ++ back) = trimStart back := List.dropWhile_append_of_pos blanks

theorem trimStart_of_solid (solid : ∀ c ∈ text.head?, isBlank c = false) : trimStart text = text := by
  cases text with
  | nil => rfl
  | cons c rest => exact List.dropWhile_cons_of_neg (by simpa using solid c rfl)

theorem trimStart_solid (text : List Char) : ∀ c ∈ (trimStart text).head?, isBlank c = false := by
  intro c first
  have solid := List.head?_dropWhile_not isBlank text
  rw [show text.dropWhile isBlank = trimStart text from rfl,first] at solid
  exact solid

theorem exists_trimStart (text : List Char) : ∃ front, Blanks front ∧ text = front ++ trimStart text :=
  ⟨text.takeWhile isBlank,fun _ inside => List.mem_takeWhile_imp inside,
    List.takeWhile_append_dropWhile.symm⟩

theorem trimEnd_append (front : List Char) (blanks : Blanks back) :
    trimEnd (front ++ back) = trimEnd front := by
  rw [trimEnd,List.reverse_append,List.dropWhile_append_of_pos]
  · rfl
  · intro c inside
    exact blanks c (List.mem_reverse.mp inside)

theorem exists_trimEnd (text : List Char) : ∃ back, Blanks back ∧ text = trimEnd text ++ back :=
  ⟨text.rtakeWhile isBlank,fun _ inside => List.mem_rtakeWhile_imp inside,
    List.rdropWhile_append_rtakeWhile.symm⟩

theorem trimEnd_solid (text : List Char) : ∀ c ∈ (trimEnd text).getLast?, isBlank c = false :=
  not_test_of_mem_getLast?_rdropWhile isBlank text

/-- No blank is a word character. -/
theorem not_isWord_of_isBlank (blank : isBlank c = true) : isWord c = false := by
  have each : ∀ n ∈ whiteSpace, isWord (Char.ofNat n) = false := by
    -- The ranges are searched as a list, since an array is slow to evaluate.
    simp only [isWord,← Array.any_toList]
    decide +kernel
  rw [← Char.ofNat_toNat c]
  exact each c.toNat (isBlank_iff.mp blank)

-- Lines

theorem not_mem_of_mem_lines {line : List Char} (member : line ∈ lines text) : '\n' ∉ line := by
  rcases List.mem_append.mp member with member | member
  · obtain ⟨part,inside,rfl⟩ := List.mem_map.mp member
    have clean := not_mem_of_mem_splitAt (List.dropLast_subset _ inside)
    rw [dropReturn]
    split
    · exact fun broken => clean (List.dropLast_subset _ broken)
    · exact clean
  · have last := List.mem_of_mem_filter member
    exact not_mem_of_mem_splitAt (List.mem_of_getLast? (Option.mem_toList.mp last))

/-- Joined lines are read back if none ends in a carriage return and the last one is not empty. -/
theorem lines_joinWith {parts : List (List Char)} (clean : ∀ part ∈ parts, '\n' ∉ part)
    (plain : ∀ part ∈ parts, part.getLast? ≠ some '\r') (ends : ∀ part ∈ parts.getLast?, part ≠ []) :
    lines (joinWith ['\n'] parts) = parts := by
  obtain rfl | ⟨parts,last,rfl⟩ := List.eq_nil_or_concat parts
  · rfl
  · rw [List.concat_eq_append] at *
    have kept : parts.map dropReturn = parts := by
      rw [List.map_congr_left (g := id),List.map_id]
      intro part inside
      exact if_neg (plain part (List.mem_append_left [last] inside))
    rw [lines,splitAt_joinWith (by simp) clean]
    simp [kept,ends last List.getLast?_concat]

end SourceAtlas.Text
