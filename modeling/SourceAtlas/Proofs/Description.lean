import SourceAtlas.Proofs.Blanks
import SourceAtlas.Syntax.Documentation

/-! What the description of a documentation block keeps. A tag ends it if it stands behind the margin
that is removed: blanks, or blanks, one star and at most one space. A tag farther in is kept. -/
namespace SourceAtlas.Syntax

open Text

variable {block inner line text rest gap back : List Char} {c : Char}

-- Opening and closing

/-- Taking off copies of a piece at the start of a text, as many as there are, leaves a rest. -/
def Peels (piece text rest : List Char) : Prop :=
  ∃ count, text = (List.replicate count piece).flatten ++ rest ∧ ¬piece <+: rest

theorem Peels.none {piece : List Char} (other : ¬piece <+: text) : Peels piece text text := ⟨0,rfl,other⟩

theorem Peels.one {piece : List Char} (peels : Peels piece text rest) : Peels piece (piece ++ text) rest := by
  obtain ⟨count,rfl,other⟩ := peels
  exact ⟨count + 1,by simp [List.replicate_succ],other⟩

theorem peels_dropOpenings (text : List Char) : Peels ['/','*','*'] text (dropOpenings text) := by
  fun_induction dropOpenings text with
  | case1 rest ih => exact ih.one
  | case2 text other =>
    apply Peels.none
    rintro ⟨rest,rfl⟩
    exact other rest rfl

theorem peels_dropClosings (text : List Char) : Peels ['/','*'] text (dropClosings text) := by
  fun_induction dropClosings text with
  | case1 rest ih => exact ih.one
  | case2 text other =>
    apply Peels.none
    rintro ⟨rest,rfl⟩
    exact other rest rfl

/-- The text between the openings at the start of a block and the closings at its end. -/
structure Delimits (block inner : List Char) : Prop where
  copies : ∃ opened closed, block = (List.replicate (opened + 1) ['/','*','*']).flatten ++ inner ++
    (List.replicate closed ['*','/']).flatten
  unopened : ¬['/','*','*'] <+: inner
  unclosed : ¬['*','/'] <:+ inner

theorem dropPrefix?_isSome (start text : List Char) :
    (dropPrefix? start text).isSome = true ↔ start <+: text := by
  induction start generalizing text with
  | nil => simp [dropPrefix?]
  | cons p start ih =>
    cases text with
    | nil => simp [dropPrefix?]
    | cons c rest =>
      rw [dropPrefix?,List.cons_prefix_cons,← ih]
      split
      · next same => simp [same]
      · next other => simp [other]

theorem isDocumentation_iff : isDocumentation block = true ↔
    ['/','*','*'] <+: block ∧ ¬['/','*','*','/'] <+: block := by
  rw [isDocumentation,Bool.and_eq_true,dropPrefix?_isSome,← dropPrefix?_isSome ['/','*','*','/']]
  simp

theorem delimits_inner (documents : isDocumentation block = true) :
    Delimits block (dropClosings (dropOpenings block).reverse).reverse := by
  obtain ⟨opened,opens,unopened⟩ := peels_dropOpenings block
  obtain ⟨closed,closes,unclosed⟩ := peels_dropClosings (dropOpenings block).reverse
  have parted := congrArg List.reverse closes
  rw [List.reverse_reverse,List.reverse_append,List.reverse_flatten,List.map_replicate,
    List.reverse_replicate] at parted
  refine ⟨?_,?_,?_⟩
  · cases opened with
    | zero =>
      rw [show block = dropOpenings block from opens] at documents
      exact absurd (isDocumentation_iff.mp documents).1 unopened
    | succ opened => exact ⟨opened,closed,by rw [List.append_assoc]; exact parted ▸ opens⟩
  · intro further
    rw [parted] at unopened
    exact unopened (further.trans (List.prefix_append _ _))
  · intro further
    exact unclosed (by simpa using List.reverse_prefix.mpr further)

-- Margins

def dropOne (c : Char) : List Char → List Char
  | [] => []
  | d :: rest => if c = d then rest else d :: rest

theorem dropPrefix?_getD (c : Char) (text : List Char) :
    (dropPrefix? [c] text).getD text = dropOne c text := by
  cases text with
  | nil => rfl
  | cons d rest =>
    rw [dropPrefix?,dropOne]
    split <;> rfl

theorem dropOne_cases (c : Char) (text : List Char) :
    (∃ rest, text = c :: rest ∧ dropOne c text = rest) ∨ dropOne c text = text := by
  cases text with
  | nil => exact .inr rfl
  | cons d rest =>
    by_cases same : c = d
    · subst same
      exact .inl ⟨rest,rfl,if_pos rfl⟩
    · exact .inr (if_neg same)

theorem dropOne_suffix (c : Char) (text : List Char) : dropOne c text <:+ text := by
  rcases dropOne_cases c text with ⟨rest,rfl,dropped⟩ | same
  · rw [dropped]
    exact List.suffix_cons c rest
  · exact ⟨[],same⟩

theorem trimEnd_dropOne (c : Char) (text : List Char) :
    trimEnd (dropOne c (trimEnd text)) = trimEnd (dropOne c text) := by
  obtain ⟨back,blanks,apart⟩ := exists_trimEnd text
  cases kept : trimEnd text with
  | nil =>
    rw [kept,List.nil_append] at apart
    have blank : Blanks (dropOne c text) := fun d inside =>
      blanks d (apart ▸ (dropOne_suffix c text).subset inside)
    exact (trimEnd_append [] blank).symm
  | cons d rest =>
    conv_rhs => rw [apart,kept]
    rw [List.cons_append,dropOne,dropOne]
    split
    · exact (trimEnd_append rest blanks).symm
    · exact (trimEnd_append (d :: rest) blanks).symm

/-- The blanks at the end of a line may be removed last. -/
theorem dropMargin_eq (line : List Char) :
    dropMargin line = trimEnd (dropOne ' ' (dropOne '*' (trimStart line))) := by
  simp only [dropMargin,dropPrefix?_getD,trim]
  rw [← trimEnd_dropOne ' ' (dropOne '*' (trimEnd _)),trimEnd_dropOne '*',trimEnd_dropOne ' ']

/-- What is taken off the start of a line: blanks, with a star and a space after them if they are there. -/
inductive Margin : List Char → Prop
  | bare {margin : List Char} (blanks : Blanks margin) : Margin margin
  | starred {margin : List Char} (blanks : Blanks margin) : Margin (margin ++ ['*'])
  | spaced {margin : List Char} (blanks : Blanks margin) : Margin (margin ++ ['*',' '])

/-- Nothing is lost of a line but its margin and the blanks at its end. -/
theorem exists_margin (line : List Char) :
    ∃ margin back, Margin margin ∧ Blanks back ∧ line = margin ++ dropMargin line ++ back := by
  obtain ⟨margin,blanks,cut⟩ := exists_trimStart line
  obtain ⟨back,ends,apart⟩ := exists_trimEnd (dropOne ' ' (dropOne '*' (trimStart line)))
  rw [← dropMargin_eq] at apart
  rcases dropOne_cases '*' (trimStart line) with ⟨inner,read,dropped⟩ | same
  · rw [dropped] at apart
    rw [read] at cut
    rcases dropOne_cases ' ' inner with ⟨rest,rfl,shorter⟩ | full
    · refine ⟨margin ++ ['*',' '],back,.spaced blanks,ends,?_⟩
      rw [List.append_assoc,← apart,shorter,List.append_assoc]
      exact cut
    · refine ⟨margin ++ ['*'],back,.starred blanks,ends,?_⟩
      rw [List.append_assoc,← apart,full,List.append_assoc]
      exact cut
  · rw [same] at apart
    have solid : dropOne ' ' (trimStart line) = trimStart line := by
      rcases dropOne_cases ' ' (trimStart line) with ⟨rest,read,_⟩ | full
      · exact absurd (trimStart_solid line ' ' (read ▸ rfl)) (by decide)
      · exact full
    refine ⟨margin,back,.bare blanks,ends,?_⟩
    rw [List.append_assoc,← apart,solid]
    exact cut

-- Tags

theorem startsTag_iff : startsTag text = true ↔ ∃ c rest, text = '@' :: c :: rest ∧ isWord c = true := by
  constructor
  · intro starts
    unfold startsTag at starts
    split at starts
    · next c rest => exact ⟨c,rest,rfl,starts⟩
    · cases starts
  · rintro ⟨c,rest,rfl,word⟩
    exact word

theorem solid_of_startsTag (starts : startsTag text = true) : ∀ c ∈ text.head?, isBlank c = false := by
  obtain ⟨d,rest,rfl,_⟩ := startsTag_iff.mp starts
  rintro c ⟨⟩
  rfl

/-- Blanks behind a text make no tag of it: they are not even the second character of one. -/
theorem startsTag_append (text : List Char) (blanks : Blanks back) :
    startsTag (text ++ back) = startsTag text := by
  rw [Bool.eq_iff_iff,startsTag_iff,startsTag_iff]
  constructor
  · rintro ⟨c,rest,same,word⟩
    match text with
    | [] =>
      rw [show back = '@' :: c :: rest from same] at blanks
      exact absurd (blanks '@' List.mem_cons_self) (by decide)
    | [_] =>
      rw [show back = c :: rest from (List.cons.inj same).2] at blanks
      exact absurd (not_isWord_of_isBlank (blanks c List.mem_cons_self)) (by simp [word])
    | d :: e :: text =>
      cases same
      exact ⟨c,text,rfl,word⟩
  · rintro ⟨c,rest,rfl,word⟩
    exact ⟨c,rest ++ back,rfl,word⟩

theorem startsTag_trimEnd (text : List Char) : startsTag (trimEnd text) = startsTag text := by
  obtain ⟨back,blanks,apart⟩ := exists_trimEnd text
  conv_rhs => rw [apart,startsTag_append _ blanks]

theorem startsTag_trimStart_trimEnd (text : List Char) :
    startsTag (trimStart (trimEnd text)) = startsTag (trimStart text) := by
  obtain ⟨back,blanks,apart⟩ := exists_trimEnd text
  obtain ⟨front,margin,cut⟩ := exists_trimStart (trimEnd text)
  have solid := trimStart_solid (trimEnd text)
  conv_rhs => rw [apart,cut,List.append_assoc,trimStart_append margin]
  cases kept : trimStart (trimEnd text) with
  | nil => rw [List.nil_append,trimStart_of_blanks blanks]
  | cons c rest =>
    rw [kept] at solid
    have stays : trimStart (c :: rest ++ back) = c :: rest ++ back := trimStart_of_solid solid
    rw [stays,startsTag_append _ blanks]

/-- A line that starts a tag behind its margin, which is blanks, or blanks, a star and a gap. -/
inductive TagLine : (gap line : List Char) → Prop
  | bare {margin tag : List Char} (blanks : Blanks margin) (starts : startsTag tag = true) :
      TagLine [] (margin ++ tag)
  | starred {margin gap tag : List Char} (blanks : Blanks margin) (between : Blanks gap)
      (starts : startsTag tag = true) : TagLine gap (margin ++ '*' :: (gap ++ tag))

/-- A tag line with no gap behind its star, or a single space. -/
def Flush (line : List Char) : Prop := TagLine [] line ∨ TagLine [' '] line

theorem tagLine_iff : TagLine gap line ↔
    Blanks gap ∧ ∃ tag, startsTag tag = true ∧ dropOne '*' (trimStart line) = gap ++ tag := by
  constructor
  · intro tagged
    cases tagged with
    | @bare margin tag blanks starts =>
      refine ⟨fun c inside => absurd inside List.not_mem_nil,tag,starts,?_⟩
      rw [trimStart_append blanks,trimStart_of_solid (solid_of_startsTag starts)]
      obtain ⟨c,rest,rfl,_⟩ := startsTag_iff.mp starts
      rfl
    | @starred margin _ tag blanks between starts =>
      refine ⟨between,tag,starts,?_⟩
      rw [trimStart_append blanks,trimStart_of_solid (by rintro c ⟨⟩; rfl)]
      rfl
  · rintro ⟨between,tag,starts,apart⟩
    obtain ⟨margin,blanks,cut⟩ := exists_trimStart line
    rcases dropOne_cases '*' (trimStart line) with ⟨rest,read,dropped⟩ | same
    · rw [cut,read,← dropped,apart]
      exact .starred blanks between starts
    · rw [same] at apart
      have unbroken : gap = [] := by
        cases gap with
        | nil => rfl
        | cons c gap =>
          have solid := trimStart_solid line c (by rw [apart]; rfl)
          exact absurd (between c List.mem_cons_self) (by simp [solid])
      rw [unbroken,List.nil_append] at apart
      rw [cut,unbroken,apart]
      exact .bare blanks starts

theorem startsTag_dropMargin (line : List Char) : startsTag (dropMargin line) = true ↔ Flush line := by
  have none : Blanks [] := fun c inside => absurd inside List.not_mem_nil
  have space : Blanks [' '] := fun c inside => List.mem_singleton.mp inside ▸ rfl
  rw [Flush,tagLine_iff,tagLine_iff,dropMargin_eq,startsTag_trimEnd]
  simp only [none,space,true_and]
  generalize dropOne '*' (trimStart line) = inner
  constructor
  · intro starts
    rcases dropOne_cases ' ' inner with ⟨rest,rfl,_⟩ | same
    · exact .inr ⟨rest,starts,rfl⟩
    · rw [same] at starts
      exact .inl ⟨inner,starts,rfl⟩
  · rintro (⟨tag,starts,rfl⟩ | ⟨tag,starts,rfl⟩)
    · obtain ⟨c,rest,rfl,_⟩ := startsTag_iff.mp starts
      exact starts
    · exact starts

theorem startsTag_trimStart_dropMargin (line : List Char) :
    startsTag (trimStart (dropMargin line)) = true ↔ ∃ gap, TagLine gap line := by
  simp only [tagLine_iff]
  rw [dropMargin_eq,startsTag_trimStart_trimEnd]
  generalize dropOne '*' (trimStart line) = inner
  have unspaced : trimStart (dropOne ' ' inner) = trimStart inner := by
    rcases dropOne_cases ' ' inner with ⟨rest,rfl,_⟩ | same
    · rfl
    · rw [same]
  rw [unspaced]
  constructor
  · intro starts
    obtain ⟨gap,blanks,apart⟩ := exists_trimStart inner
    exact ⟨gap,blanks,_,starts,apart⟩
  · rintro ⟨gap,blanks,tag,starts,rfl⟩
    rwa [trimStart_append blanks,trimStart_of_solid (solid_of_startsTag starts)]

-- The lines kept

/-- The lines that a description keeps of some: all but those at both ends that have nothing behind
their margin. -/
structure Keeps (before kept : List (List Char)) : Prop where
  around : ∃ skipped trailing, before = skipped ++ kept ++ trailing ∧
    ∀ line ∈ skipped ++ trailing, dropMargin line = []
  starts : ∀ line ∈ kept.head?, dropMargin line ≠ []
  ends : ∀ line ∈ kept.getLast?, dropMargin line ≠ []

theorem exists_keeps (before : List (List Char)) :
    ∃ kept, Keeps before kept ∧ dropEmptyEnds (before.map dropMargin) = kept.map dropMargin := by
  let empty := fun line => dropMargin line == []
  let rest := before.dropWhile empty
  let kept := rest.rdropWhile empty
  have apart : rest = kept ++ rest.rtakeWhile empty := List.rdropWhile_append_rtakeWhile.symm
  refine ⟨kept,⟨⟨before.takeWhile empty,rest.rtakeWhile empty,?_,?_⟩,?_,?_⟩,?_⟩
  · rw [List.append_assoc,← apart]
    exact List.takeWhile_append_dropWhile.symm
  · intro line inside
    rcases List.mem_append.mp inside with inside | inside
    · have blank : empty line = true := List.mem_takeWhile_imp inside
      exact beq_iff_eq.mp blank
    · have blank : empty line = true := List.mem_rtakeWhile_imp inside
      exact beq_iff_eq.mp blank
  · intro line first
    have solid := List.head?_dropWhile_not empty before
    rw [show before.dropWhile empty = kept ++ rest.rtakeWhile empty from apart,List.head?_append,
      Option.mem_def.mp first] at solid
    simpa [empty] using solid
  · intro line last
    have solid := not_test_of_mem_getLast?_rdropWhile empty rest line last
    simpa [empty] using solid
  · simp only [dropEmptyEnds,List.dropWhile_map,← List.map_reverse]
    rfl

theorem lines_description {kept : List (List Char)} (clean : ∀ line ∈ kept, '\n' ∉ line)
    (ends : ∀ line ∈ kept.getLast?, dropMargin line ≠ []) :
    lines (joinWith ['\n'] (kept.map dropMargin)) = kept.map dropMargin := by
  apply lines_joinWith
  · intro part member
    obtain ⟨line,inside,rfl⟩ := List.mem_map.mp member
    obtain ⟨margin,back,_,_,apart⟩ := exists_margin line
    intro broken
    apply clean line inside
    rw [apart]
    exact List.mem_append_left back (List.mem_append_right margin broken)
  · intro part member last
    obtain ⟨line,inside,rfl⟩ := List.mem_map.mp member
    rw [dropMargin_eq] at last
    exact absurd (trimEnd_solid _ '\r' last) (by decide)
  · intro part last
    rw [List.getLast?_map] at last
    obtain ⟨line,ended,rfl⟩ := Option.map_eq_some_iff.mp last
    exact ends line ended

/-- A description is made of the lines before the first flush tag. No line of it starts with a tag, nor
does one behind blanks, unless a star and a gap other than one space stand before the tag. -/
theorem description_exact (documents : isDocumentation block = true) :
    ∃ inner before after kept, Delimits block inner ∧ lines inner = before ++ after ∧
      (∀ line ∈ before, ¬Flush line) ∧ (∀ line ∈ after.head?, Flush line) ∧ Keeps before kept ∧
      description block = joinWith ['\n'] (kept.map dropMargin) ∧
      lines (description block) = kept.map dropMargin ∧
      ∀ line ∈ kept,
        (∃ margin back, Margin margin ∧ Blanks back ∧ line = margin ++ dropMargin line ++ back) ∧
        (∀ c ∈ (dropMargin line).getLast?, isBlank c = false) ∧ startsTag (dropMargin line) = false ∧
        (startsTag (trimStart (dropMargin line)) = true ↔
          ∃ gap, TagLine gap line ∧ gap ≠ [] ∧ gap ≠ [' ']) := by
  let inner := (dropClosings (dropOpenings block).reverse).reverse
  let plain := fun line => !startsTag (dropMargin line)
  let before := (lines inner).takeWhile plain
  let after := (lines inner).dropWhile plain
  have apart : lines inner = before ++ after := List.takeWhile_append_dropWhile.symm
  have unflagged : ∀ line ∈ before, ¬Flush line := by
    intro line inside
    rw [← startsTag_dropMargin]
    simpa [plain] using List.mem_takeWhile_imp inside
  have stops : ∀ line ∈ after.head?, Flush line := by
    intro line first
    have stopped := List.head?_dropWhile_not plain (lines inner)
    rw [show (lines inner).dropWhile plain = after from rfl,Option.mem_def.mp first] at stopped
    rw [← startsTag_dropMargin]
    simpa [plain] using stopped
  obtain ⟨kept,keeps,trimmed⟩ := exists_keeps before
  have within : ∀ line ∈ kept, line ∈ before := by
    obtain ⟨skipped,trailing,parted,_⟩ := keeps.around
    intro line inside
    rw [parted]
    exact List.mem_append_left _ (List.mem_append_right _ inside)
  have described : description block = joinWith ['\n'] (kept.map dropMargin) := by
    rw [← trimmed,description,List.takeWhile_map]
    rfl
  refine ⟨inner,before,after,kept,delimits_inner documents,apart,unflagged,stops,keeps,described,?_,?_⟩
  · rw [described]
    refine lines_description (fun line inside => ?_) keeps.ends
    have member : line ∈ lines inner := apart ▸ List.mem_append_left after (within line inside)
    exact not_mem_of_mem_lines member
  · intro line inside
    have unflush := unflagged line (within line inside)
    refine ⟨exists_margin line,?_,?_,?_⟩
    · rw [dropMargin_eq]
      exact trimEnd_solid _
    · rw [← Bool.not_eq_true,startsTag_dropMargin]
      exact unflush
    · rw [startsTag_trimStart_dropMargin]
      constructor
      · rintro ⟨gap,tagged⟩
        refine ⟨gap,tagged,?_,?_⟩
        · rintro rfl
          exact unflush (.inl tagged)
        · rintro rfl
          exact unflush (.inr tagged)
      · rintro ⟨gap,tagged,_⟩
        exact ⟨gap,tagged⟩

def describedBlock : List Char :=
  "/**\n *\n * Reads a value.\r\n *\tFrom the table.\n\n\tOr not.\n *  @see kept\n * @param x dropped\n */".toList

theorem description_exact_tagged : isDocumentation describedBlock = true ∧
    (∃ inner before after kept, Delimits describedBlock inner ∧ lines inner = before ++ after ∧
      (∀ line ∈ before, ¬Flush line) ∧ (∀ line ∈ after.head?, Flush line) ∧ Keeps before kept ∧
      description describedBlock = joinWith ['\n'] (kept.map dropMargin)) ∧
    description describedBlock = "Reads a value.\n\tFrom the table.\n\nOr not.\n @see kept".toList := by
  have documents : isDocumentation describedBlock = true := by decide +kernel
  obtain ⟨inner,before,after,kept,delimits,apart,unflagged,stops,keeps,described,_⟩ :=
    description_exact documents
  exact ⟨documents,⟨inner,before,after,kept,delimits,apart,unflagged,stops,keeps,described⟩,
    by decide +kernel⟩

/-- A tag with two spaces between it and its star is kept. -/
theorem description_keeps_spaced_tag : isDocumentation "/**\n *  @param x\n */".toList = true ∧
    ¬∀ line ∈ lines (description "/**\n *  @param x\n */".toList), startsTag (trimStart line) = false := by
  decide +kernel

end SourceAtlas.Syntax
