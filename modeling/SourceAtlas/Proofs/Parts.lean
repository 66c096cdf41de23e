import SourceAtlas.Text.Parts

/-! Cutting a text at separators and joining the parts again. -/
namespace SourceAtlas.Text

theorem splitAt_ne_nil (separator : Char) (text : List Char) : splitAt separator text ≠ [] := by
  cases text with
  | nil => simp [splitAt]
  | cons c rest =>
    unfold splitAt
    split
    · simp
    · split <;> simp

theorem splitAt_cons_of_ne {separator c : Char} (other : c ≠ separator) {rest part : List Char}
    {parts : List (List Char)} (parted : splitAt separator rest = part :: parts) :
    splitAt separator (c :: rest) = (c :: part) :: parts := by
  rw [splitAt,if_neg other,parted]

theorem splitAt_append_separator (separator : Char) (first rest : List Char) :
    splitAt separator (first ++ separator :: rest) =
      splitAt separator first ++ splitAt separator rest := by
  induction first with
  | nil => simp [splitAt]
  | cons c first ih =>
    by_cases same : c = separator
    · simp [splitAt,same,ih]
    · cases parted : splitAt separator first with
      | nil => exact absurd parted (splitAt_ne_nil separator first)
      | cons part parts =>
        rw [parted] at ih
        rw [List.cons_append,splitAt_cons_of_ne same ih,splitAt_cons_of_ne same parted]
        rfl

theorem splitAt_of_not_mem {separator : Char} {part : List Char} (clean : separator ∉ part) :
    splitAt separator part = [part] := by
  induction part with
  | nil => rfl
  | cons c rest ih =>
    obtain ⟨other,later⟩ := List.ne_and_not_mem_of_not_mem_cons clean
    exact splitAt_cons_of_ne (Ne.symm other) (ih later)

theorem eq_nil_of_splitAt {separator : Char} {text : List Char} (blank : splitAt separator text = [[]]) :
    text = [] := by
  cases text with
  | nil => rfl
  | cons c rest =>
    by_cases same : c = separator
    · rw [splitAt,if_pos same] at blank
      exact absurd (List.cons.inj blank).2 (splitAt_ne_nil separator rest)
    · cases parted : splitAt separator rest with
      | nil => exact absurd parted (splitAt_ne_nil separator rest)
      | cons part parts =>
        rw [splitAt_cons_of_ne same parted] at blank
        cases blank

theorem not_mem_of_mem_splitAt {separator : Char} {text part : List Char}
    (member : part ∈ splitAt separator text) : separator ∉ part := by
  induction text generalizing part with
  | nil =>
    cases List.mem_singleton.mp member
    exact List.not_mem_nil
  | cons c rest ih =>
    by_cases same : c = separator
    · rw [splitAt,if_pos same] at member
      rcases List.mem_cons.mp member with rfl | later
      · exact List.not_mem_nil
      · exact ih later
    · cases parted : splitAt separator rest with
      | nil => exact absurd parted (splitAt_ne_nil separator rest)
      | cons first parts =>
        rw [splitAt_cons_of_ne same parted] at member
        rcases List.mem_cons.mp member with rfl | later
        · have clean := ih (parted ▸ List.mem_cons_self)
          simp [clean,Ne.symm same]
        · exact ih (parted ▸ List.mem_cons_of_mem first later)

theorem joinWith_cons {separator part : List Char} {parts : List (List Char)} (more : parts ≠ []) :
    joinWith separator (part :: parts) = part ++ separator ++ joinWith separator parts := by
  cases parts with
  | nil => contradiction
  | cons next parts => rfl

theorem joinWith_append {separator : List Char} {before after : List (List Char)} (some : before ≠ [])
    (more : after ≠ []) : joinWith separator (before ++ after) =
      joinWith separator before ++ separator ++ joinWith separator after := by
  induction before with
  | nil => contradiction
  | cons part before ih =>
    rw [List.cons_append,joinWith_cons (List.append_ne_nil_of_right_ne_nil before more)]
    by_cases last : before = []
    · subst last
      rfl
    · rw [ih last,joinWith_cons last]
      simp only [List.append_assoc]

theorem joinWith_eq_intercalate (separator : List Char) (parts : List (List Char)) :
    joinWith separator parts = separator.intercalate parts := by
  induction parts with
  | nil => rfl
  | cons part parts ih =>
    by_cases last : parts = []
    · subst last
      simp [joinWith]
    · rw [joinWith_cons last,ih,List.intercalate_cons_of_ne_nil last]

theorem splitAt_eq_splitOn (separator : Char) (text : List Char) :
    splitAt separator text = text.splitOn separator := by
  induction text with
  | nil => rfl
  | cons c text ih =>
    rw [List.splitOn,List.splitOnP_cons_eq_if_modifyHead,← List.splitOn,← ih]
    by_cases same : c = separator
    · rw [splitAt,if_pos same,if_pos (beq_iff_eq.mpr same)]
    · rw [if_neg (by simpa using same)]
      cases parted : splitAt separator text with
      | nil => exact absurd parted (splitAt_ne_nil separator text)
      | cons part parts => exact splitAt_cons_of_ne same parted

theorem joinWith_splitAt (separator : Char) (text : List Char) :
    joinWith [separator] (splitAt separator text) = text := by
  rw [joinWith_eq_intercalate,splitAt_eq_splitOn,List.intercalate_splitOn]

theorem joinWith_concat (separator : List Char) (parts : List (List Char)) (last : List Char) :
    joinWith separator (parts ++ [last]) = parts.flatMap (· ++ separator) ++ last := by
  induction parts with
  | nil => rfl
  | cons part parts ih =>
    rw [List.cons_append,joinWith_cons (List.concat_ne_nil last parts),ih,List.flatMap_cons]
    simp only [List.append_assoc]

theorem flatMap_separator (separator : List Char) (parts : List (List Char)) :
    parts.flatMap (· ++ separator) = [] ∨ ∃ front, parts.flatMap (· ++ separator) = front ++ separator := by
  obtain rfl | ⟨parts,last,rfl⟩ := List.eq_nil_or_concat parts
  · exact .inl rfl
  · exact .inr ⟨parts.flatMap (· ++ separator) ++ last,by simp⟩

theorem mem_joinWith {separator : List Char} {parts : List (List Char)} {c : Char} (other : c ∉ separator) :
    c ∈ joinWith separator parts ↔ ∃ part ∈ parts, c ∈ part := by
  obtain rfl | ⟨parts,last,rfl⟩ := List.eq_nil_or_concat parts
  · simp [joinWith]
  · rw [List.concat_eq_append,joinWith_concat]
    simp [other]

/-- Joined parts are found again if the separator is in none of them. -/
theorem splitAt_joinWith {separator : Char} {parts : List (List Char)} (some : parts ≠ [])
    (clean : ∀ part ∈ parts, separator ∉ part) :
    splitAt separator (joinWith [separator] parts) = parts := by
  induction parts with
  | nil => contradiction
  | cons part parts ih =>
    have first := splitAt_of_not_mem (clean part (by simp))
    by_cases more : parts = []
    · subst more
      exact first
    · rw [joinWith_cons more,List.append_assoc,List.singleton_append,splitAt_append_separator,first,
        ih more fun other member => clean other (List.mem_cons_of_mem part member)]
      rfl

end SourceAtlas.Text
