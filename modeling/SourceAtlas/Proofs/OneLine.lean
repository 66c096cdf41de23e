import Mathlib.Data.List.Chain
import SourceAtlas.Proofs.Blanks

/-! Texts on one line. Taken apart at its blanks a text is a list of runs, and on one line these are joined by
single spaces; texts that are put together from such ones stay on one line. -/
namespace SourceAtlas.Text

variable {text first second : List Char} {c : Char}

/-- A text with no blanks at its ends, and single spaces within. -/
structure OneLine (text : List Char) : Prop where
  nonempty : text ≠ []
  starts : ∀ c ∈ text.head?, isBlank c = false
  ends : ∀ c ∈ text.getLast?, isBlank c = false
  spaces : ∀ c ∈ text, isBlank c = true → c = ' '
  single : text.IsChain fun before after => isBlank before = false ∨ isBlank after = false

/-- A text with a blank that is not a space, such as a line break. -/
def Broken (text : List Char) : Prop := ∃ c ∈ text, isBlank c = true ∧ c ≠ ' '

theorem OneLine.of_solid (nonempty : text ≠ []) (solid : (text.all fun c => !isBlank c) = true) :
    OneLine text := by
  have each : ∀ c ∈ text, isBlank c = false := by simpa using solid
  refine ⟨nonempty,fun c first => each c (List.mem_of_mem_head? first),
    fun c last => each c (List.mem_of_getLast? last),?_,?_⟩
  · intro c inside blank
    exact absurd (blank.symm.trans (each c inside)) (by decide)
  · apply List.Pairwise.isChain
    apply List.pairwise_of_forall_mem_list
    intro before here _ _
    exact .inl (each before here)

theorem OneLine.unbroken (line : OneLine text) : ¬Broken text := by
  rintro ⟨c,inside,blank,other⟩
  exact other (line.spaces c inside blank)

theorem Broken.infix (broken : Broken first) (within : first <:+: second) : Broken second := by
  obtain ⟨c,inside,blank⟩ := broken
  exact ⟨c,within.subset inside,blank⟩

theorem broken_append : Broken (first ++ second) ↔ Broken first ∨ Broken second := by
  constructor
  · rintro ⟨c,inside,blank⟩
    rcases List.mem_append.mp inside with inside | inside
    · exact .inl ⟨c,inside,blank⟩
    · exact .inr ⟨c,inside,blank⟩
  · rintro (broken | broken)
    · exact broken.infix (List.prefix_append _ _).isInfix
    · exact broken.infix (List.suffix_append _ _).isInfix

-- Texts brought to one line

theorem spaces_collapseFrom {inRun : Bool} (inside : c ∈ collapseFrom inRun text) (blank : isBlank c = true) :
    c = ' ' := by
  induction text generalizing inRun with
  | nil => exact absurd inside List.not_mem_nil
  | cons d rest ih =>
    rw [collapseFrom] at inside
    split at inside
    · split at inside
      · exact ih inside
      · rcases List.mem_cons.mp inside with rfl | later
        · rfl
        · exact ih later
    · next solid =>
      rcases List.mem_cons.mp inside with rfl | later
      · exact absurd blank solid
      · exact ih later

/-- No two blanks follow each other, nor does one follow the space of a run. -/
theorem single_collapseFrom (inRun : Bool) (text : List Char) :
    ((collapseFrom inRun text).IsChain fun before after => isBlank before = false ∨ isBlank after = false) ∧
      (inRun = true → ∀ c ∈ (collapseFrom inRun text).head?, isBlank c = false) := by
  induction text generalizing inRun with
  | nil => exact ⟨.nil,fun _ c inside => by cases inside⟩
  | cons d rest ih =>
    rw [collapseFrom]
    cases solid : isBlank d with
    | true =>
      obtain ⟨later,next⟩ := ih true
      cases inRun with
      | true => exact ⟨later,next⟩
      | false => exact ⟨List.isChain_cons.mpr ⟨fun c inside => .inr (next rfl c inside),later⟩,by simp⟩
    | false =>
      refine ⟨List.isChain_cons.mpr ⟨fun _ _ => .inl solid,(ih false).1⟩,fun _ c inside => ?_⟩
      cases inside
      exact solid

theorem collapseFrom_concat (solid : isBlank c = false) (inRun : Bool) (text : List Char) :
    collapseFrom inRun (text ++ [c]) = collapseFrom inRun text ++ [c] := by
  induction text generalizing inRun with
  | nil => simp [collapseFrom,solid]
  | cons d rest ih =>
    rw [List.cons_append,collapseFrom,collapseFrom]
    split
    · split
      · exact ih true
      · rw [ih true,List.cons_append]
    · rw [ih false,List.cons_append]

theorem trim_starts (text : List Char) : ∀ c ∈ (trim text).head?, isBlank c = false := by
  intro c inside
  have cut : trim text <+: trimStart text := List.rdropWhile_prefix isBlank (trimStart text)
  obtain ⟨rest,apart⟩ := cut
  apply trimStart_solid text
  rw [← apart,List.head?_append,Option.mem_def.mp inside]
  rfl

theorem trim_ends (text : List Char) : ∀ c ∈ (trim text).getLast?, isBlank c = false :=
  trimEnd_solid (trimStart text)

theorem oneLine_oneLine (nonempty : oneLine text ≠ []) : OneLine (oneLine text) := by
  have inner : trim text ≠ [] := by
    intro empty
    rw [oneLine,empty] at nonempty
    exact nonempty rfl
  refine ⟨nonempty,?_,?_,fun _ => spaces_collapseFrom,(single_collapseFrom false _).1⟩
  · intro c inside
    obtain ⟨first,rest,apart⟩ := List.exists_cons_of_ne_nil inner
    have solid : isBlank first = false := by
      apply trim_starts text
      rw [apart]
      rfl
    rw [oneLine,collapse,apart,collapseFrom,solid] at inside
    cases inside
    exact solid
  · intro c inside
    obtain ⟨front,last,apart⟩ := (List.eq_nil_or_concat (trim text)).resolve_left inner
    rw [List.concat_eq_append] at apart
    have solid : isBlank last = false := by
      apply trim_ends text
      rw [apart]
      exact List.getLast?_concat
    rw [oneLine,collapse,apart,collapseFrom_concat solid,List.getLast?_concat] at inside
    cases inside
    exact solid

-- Runs of characters that are no blanks

def Solid (text : List Char) : Prop := ∀ c ∈ text, isBlank c = false

/-- The maximal runs of characters that are no blanks, in order. Between two runs, and nowhere within one,
there are blanks; before the first one and after the last one there may be. -/
inductive Runs : List Char → List (List Char) → Prop
  | none {gap : List Char} (blanks : Blanks gap) : Runs gap []
  | cons {gap run rest : List Char} {runs : List (List Char)} (blanks : Blanks gap) (some : run ≠ [])
    (solid : Solid run) (stops : ∀ c ∈ rest.head?, isBlank c = true) (later : Runs rest runs) :
    Runs (gap ++ (run ++ rest)) (run :: runs)

theorem Runs.blank (blank : isBlank c = true) {runs : List (List Char)} (parted : Runs text runs) :
    Runs (c :: text) runs := by
  cases parted with
  | none blanks => exact .none (List.forall_mem_cons.mpr ⟨blank,blanks⟩)
  | cons blanks some solid stops later =>
    exact .cons (List.forall_mem_cons.mpr ⟨blank,blanks⟩) some solid stops later

theorem exists_runs (text : List Char) : ∃ runs, Runs text runs := by
  induction text with
  | nil => exact ⟨[],.none .nil⟩
  | cons c text ih =>
    obtain ⟨runs,parted⟩ := ih
    cases blank : isBlank c with
    | true => exact ⟨runs,parted.blank blank⟩
    | false =>
      have alone : Solid [c] := by simpa [Solid] using blank
      cases parted with
      | none blanks =>
        exact ⟨[[c]],.cons .nil (by simp) alone (fun d inside => blanks d (List.mem_of_mem_head? inside))
          (.none blanks)⟩
      | @cons gap run rest runs blanks some solid stops later =>
        cases gap with
        | nil =>
          exact ⟨(c :: run) :: runs,.cons .nil (by simp) (List.forall_mem_cons.mpr ⟨blank,solid⟩) stops
            later⟩
        | cons d gap =>
          have first := blanks d List.mem_cons_self
          exact ⟨[c] :: run :: runs,.cons .nil (by simp) alone (by simpa using first)
            (.cons blanks some solid stops later)⟩

theorem Runs.each {runs : List (List Char)} (parted : Runs text runs) : ∀ run ∈ runs, run ≠ [] ∧ Solid run := by
  induction parted with
  | none => exact fun _ inside => absurd inside List.not_mem_nil
  | cons _ some solid _ _ ih => exact List.forall_mem_cons.mpr ⟨⟨some,solid⟩,ih⟩

theorem Runs.filter_eq {runs : List (List Char)} (parted : Runs text runs) :
    text.filter (!isBlank ·) = runs.flatten := by
  induction parted with
  | none blanks => simpa [Blanks] using blanks
  | @cons gap run rest runs blanks _ solid _ _ ih =>
    have dropped : gap.filter (!isBlank ·) = [] := by simpa [Blanks] using blanks
    have kept : run.filter (!isBlank ·) = run := by simpa [Solid] using solid
    rw [List.filter_append,List.filter_append,dropped,kept,ih]
    rfl

theorem runs_joinWith {runs : List (List Char)} (each : ∀ run ∈ runs, run ≠ [] ∧ Solid run) :
    Runs (joinWith [' '] runs) runs := by
  induction runs with
  | nil => exact .none .nil
  | cons run runs ih =>
    obtain ⟨⟨some,solid⟩,others⟩ := List.forall_mem_cons.mp each
    by_cases last : runs = []
    · subst last
      have alone : Runs ([] ++ (run ++ [])) [run] := .cons .nil some solid (by simp) (.none .nil)
      simpa [joinWith] using alone
    · rw [joinWith_cons last,List.append_assoc]
      exact .cons .nil some solid (by simp [isBlank]) ((ih others).blank rfl)

/-- Joined runs are found again between the spaces. -/
theorem filter_splitAt_joinWith {runs : List (List Char)} (each : ∀ run ∈ runs, run ≠ [] ∧ Solid run) :
    (splitAt ' ' (joinWith [' '] runs)).filter (· ≠ []) = runs := by
  by_cases none : runs = []
  · subst none
    rfl
  · rw [splitAt_joinWith none]
    · exact List.filter_eq_self.mpr fun run inside => decide_eq_true (each run inside).1
    · intro run inside space
      exact absurd ((each run inside).2 ' ' space) (by decide)

theorem trimEnd_of_solid (solid : ∀ c ∈ text.getLast?, isBlank c = false) : trimEnd text = text := by
  apply List.rdropWhile_eq_self_iff.mpr
  intro some
  simpa using solid _ (List.getLast?_eq_some_getLast some)

theorem Runs.trimStart {runs : List (List Char)} (parted : Runs text runs) :
    Runs (Text.trimStart text) runs := by
  cases parted with
  | none blanks =>
    rw [trimStart_of_blanks blanks]
    exact .none .nil
  | @cons gap run rest runs blanks some solid stops later =>
    obtain ⟨c,run,rfl⟩ := List.exists_cons_of_ne_nil some
    rw [trimStart_append blanks,trimStart_of_solid (by simpa using solid c List.mem_cons_self)]
    exact .cons .nil some solid stops later

theorem Runs.trimEnd {runs : List (List Char)} (parted : Runs text runs) : Runs (Text.trimEnd text) runs := by
  induction parted with
  | none blanks => exact .none fun c inside => blanks c ((List.rdropWhile_prefix _ _).subset inside)
  | @cons gap run rest runs blanks some solid stops _ ih =>
    obtain ⟨back,ending,apart⟩ := exists_trimEnd rest
    have kept : Text.trimEnd (gap ++ (run ++ rest)) = gap ++ (run ++ Text.trimEnd rest) := by
      conv_lhs => rw [apart,← List.append_assoc,← List.append_assoc,trimEnd_append _ ending]
      rw [← List.append_assoc]
      apply trimEnd_of_solid
      intro c last
      by_cases none : Text.trimEnd rest = []
      · rw [none,List.append_nil,List.getLast?_append_of_ne_nil _ some] at last
        exact solid c (List.mem_of_getLast? last)
      · rw [List.getLast?_append_of_ne_nil _ none] at last
        exact trimEnd_solid rest c last
    rw [kept]
    refine .cons blanks some solid (fun c first => ?_) ih
    apply stops
    rw [apart,List.head?_append,Option.mem_def.mp first]
    rfl

theorem collapseFrom_blanks (blanks : Blanks first) (second : List Char) :
    collapseFrom true (first ++ second) = collapseFrom true second := by
  induction first with
  | nil => rfl
  | cons c first ih =>
    obtain ⟨blank,others⟩ := List.forall_mem_cons.mp blanks
    rw [List.cons_append,collapseFrom,if_pos blank,if_pos rfl,ih others]

theorem collapseFrom_solid (solid : Solid first) (second : List Char) :
    collapseFrom false (first ++ second) = first ++ collapseFrom false second := by
  induction first with
  | nil => rfl
  | cons c first ih =>
    obtain ⟨here,others⟩ := List.forall_mem_cons.mp solid
    rw [List.cons_append,collapseFrom,here,ih others]
    rfl

/-- Whether a blank stands before a text matters only if the text starts with a blank. -/
theorem collapseFrom_starts (starts : ∀ c ∈ text.head?, isBlank c = false) :
    collapseFrom false text = collapseFrom true text := by
  cases text with
  | nil => rfl
  | cons c text => rw [collapseFrom,collapseFrom,starts c rfl]; rfl

theorem collapseFrom_space (blank : isBlank c = true) (text : List Char) :
    collapseFrom false (c :: text) = ' ' :: collapseFrom true (c :: text) := by
  rw [collapseFrom,collapseFrom,if_pos blank,if_pos blank]
  rfl

/-- Collapsing after a blank leaves the runs joined by spaces, and perhaps a space behind them. -/
theorem Runs.collapseFrom_eq {runs : List (List Char)} (parted : Runs text runs) :
    ∃ ending, Blanks ending ∧ collapseFrom true text = joinWith [' '] runs ++ ending := by
  induction parted with
  | @none gap blanks =>
    refine ⟨[],.nil,?_⟩
    have emptied := collapseFrom_blanks blanks []
    rwa [List.append_nil] at emptied
  | @cons gap run rest runs blanks some solid stops later ih =>
    have starts : ∀ c ∈ (run ++ rest).head?, isBlank c = false := by
      intro c first
      rw [List.head?_append_of_ne_nil _ some] at first
      exact solid c (List.mem_of_mem_head? first)
    rw [collapseFrom_blanks blanks,← collapseFrom_starts starts,collapseFrom_solid solid]
    obtain ⟨ending,blank,collapsed⟩ := ih
    cases rest with
    | nil =>
      have empty : joinWith [' '] runs = [] := (List.append_eq_nil_iff.mp collapsed.symm).1
      have last : runs = [] := by
        rw [← filter_splitAt_joinWith later.each,empty]
        rfl
      subst last
      exact ⟨[],.nil,rfl⟩
    | cons c rest =>
      rw [collapseFrom_space (stops c rfl),collapsed]
      by_cases last : runs = []
      · subst last
        exact ⟨' ' :: ending,List.forall_mem_cons.mpr ⟨rfl,blank⟩,rfl⟩
      · exact ⟨ending,blank,by rw [joinWith_cons last]; simp⟩

theorem Runs.trim {runs : List (List Char)} (parted : Runs text runs) : Runs (Text.trim text) runs :=
  parted.trimStart.trimEnd

theorem Runs.oneLine_eq {runs : List (List Char)} (parted : Runs text runs) :
    oneLine text = joinWith [' '] runs := by
  obtain ⟨ending,blanks,collapsed⟩ := parted.trim.collapseFrom_eq
  have made : oneLine text = joinWith [' '] runs ++ ending :=
    (collapseFrom_starts (trim_starts text)).trans collapsed
  obtain rfl | ⟨front,c,rfl⟩ := List.eq_nil_or_concat ending
  · rw [made,List.append_nil]
  · have line : OneLine (oneLine text) := oneLine_oneLine (by simp [made])
    have solid := line.ends c (by simp [made])
    exact absurd (blanks c (by simp)) (by simp [solid])

/-- Collapsing first and trimming afterwards gives the same. -/
theorem trim_collapse (text : List Char) : trim (collapse text) = oneLine text := by
  obtain ⟨runs,parted⟩ := exists_runs text
  obtain ⟨ending,blanks,collapsed⟩ := parted.collapseFrom_eq
  obtain ⟨lead,blank,made⟩ : ∃ lead, Blanks lead ∧ collapse text = lead ++ (joinWith [' '] runs ++ ending) := by
    cases text with
    | nil => exact ⟨[],.nil,collapsed⟩
    | cons c text =>
      cases first : isBlank c with
      | true => exact ⟨[' '],by simp [Blanks,isBlank],(collapseFrom_space first text).trans (collapsed ▸ rfl)⟩
      | false => exact ⟨[],.nil,(collapseFrom_starts (by simpa using first)).trans collapsed⟩
  rw [made,← parted.oneLine_eq,trim,trimStart_append blank]
  by_cases none : oneLine text = []
  · rw [none,List.nil_append,trimStart_of_blanks blanks]
    rfl
  · have line := oneLine_oneLine none
    rw [trimStart_of_solid,trimEnd_append _ blanks,trimEnd_of_solid line.ends]
    intro c first
    rw [List.head?_append_of_ne_nil _ none] at first
    exact line.starts c first

/-- The one-line form joins the runs of a text by single spaces, whether blanks are trimmed before they are
collapsed or after. It keeps all that is no blank, and is the same for the texts with the same runs and for no
others. The blanks are white space as Unicode has it. -/
theorem oneLine_exact (text : List Char) : (∀ c, isBlank c = true ↔ c.toNat ∈ whiteSpace) ∧
    ∃ runs, Runs text runs ∧ (∀ other, Runs text other → other = runs) ∧
      oneLine text = joinWith [' '] runs ∧ trim (collapse text) = oneLine text ∧
      (oneLine text).filter (!isBlank ·) = text.filter (!isBlank ·) ∧ oneLine (oneLine text) = oneLine text ∧
      ∀ other, Runs other runs ↔ oneLine other = oneLine text := by
  obtain ⟨runs,parted⟩ := exists_runs text
  have made := parted.oneLine_eq
  have joined : Runs (oneLine text) runs := made ▸ runs_joinWith parted.each
  have unique {other : List Char} {others : List (List Char)} (apart : Runs other others)
      (same : oneLine other = oneLine text) : others = runs := by
    rw [← filter_splitAt_joinWith apart.each,← apart.oneLine_eq,same,made,filter_splitAt_joinWith parted.each]
  refine ⟨fun _ => isBlank_iff,runs,parted,fun _ apart => unique apart rfl,made,trim_collapse text,?_,?_,
    fun other => ⟨?_,?_⟩⟩
  · rw [joined.filter_eq,parted.filter_eq]
  · rw [joined.oneLine_eq,made]
  · intro apart
    rw [apart.oneLine_eq,made]
  · intro same
    obtain ⟨others,apart⟩ := exists_runs other
    exact unique apart same ▸ apart

-- Texts put together

theorem OneLine.append (front : OneLine first) (back : OneLine second) : OneLine (first ++ second) where
  nonempty := List.append_ne_nil_of_left_ne_nil front.nonempty second
  starts c inside := by
    rw [List.head?_append_of_ne_nil _ front.nonempty] at inside
    exact front.starts c inside
  ends c inside := by
    rw [List.getLast?_append_of_ne_nil _ back.nonempty] at inside
    exact back.ends c inside
  spaces c inside blank := by
    rcases List.mem_append.mp inside with inside | inside
    · exact front.spaces c inside blank
    · exact back.spaces c inside blank
  single := front.single.append back.single fun before last _ _ => .inl (front.ends before last)

theorem OneLine.spaced (front : OneLine first) (back : OneLine second) : OneLine (first ++ ' ' :: second) where
  nonempty := List.append_ne_nil_of_left_ne_nil front.nonempty _
  starts c inside := by
    rw [List.head?_append_of_ne_nil _ front.nonempty] at inside
    exact front.starts c inside
  ends c inside := by
    rw [List.getLast?_append_of_ne_nil _ (List.cons_ne_nil _ _),List.getLast?_cons_of_ne_nil back.nonempty]
      at inside
    exact back.ends c inside
  spaces c inside blank := by
    rcases List.mem_append.mp inside with inside | inside
    · exact front.spaces c inside blank
    · rcases List.mem_cons.mp inside with same | inside
      · exact same
      · exact back.spaces c inside blank
  single := by
    apply front.single.append
    · exact List.isChain_cons.mpr ⟨fun after next => .inr (back.starts after next),back.single⟩
    · exact fun before last _ _ => .inl (front.ends before last)

theorem oneLine_intercalate {pieces : List (List Char)} (nonempty : pieces ≠ [])
    (each : ∀ piece ∈ pieces, OneLine piece) : OneLine (" | ".toList.intercalate pieces) := by
  induction pieces with
  | nil => exact absurd rfl nonempty
  | cons piece rest ih =>
    obtain ⟨here,later⟩ := List.forall_mem_cons.mp each
    by_cases last : rest = []
    · subst last
      rw [List.intercalate_singleton]
      exact here
    · have bar : OneLine ['|'] := .of_solid (by decide) (by decide)
      rw [List.intercalate_cons_of_ne_nil last,List.append_assoc]
      exact here.spaced (bar.spaced (ih last later))

theorem exists_broken_piece {pieces : List (List Char)} (broken : Broken (" | ".toList.intercalate pieces)) :
    ∃ piece ∈ pieces, Broken piece := by
  obtain ⟨c,inside,blank,other⟩ := broken
  have foreign : c ∉ " | ".toList := by
    intro here
    have known : c = ' ' ∨ c = '|' ∨ c = ' ' := by simpa using here
    rcases known with rfl | rfl | rfl
    · exact other rfl
    · exact absurd blank (by decide)
    · exact other rfl
  rw [← joinWith_eq_intercalate,mem_joinWith foreign] at inside
  obtain ⟨piece,listed,here⟩ := inside
  exact ⟨piece,listed,c,here,blank,other⟩

end SourceAtlas.Text
