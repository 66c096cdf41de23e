import SourceAtlas.Proofs.GlobReading
import SourceAtlas.Proofs.Parts

/-! Glob patterns segment by segment. A star in a segment is a run of characters of a name, and a segment of
two stars is any number of names. -/
namespace SourceAtlas.Glob

open Text (joinWith splitAt)

-- What segments say of names

/-- The segment that stands for any number of names. -/
def anyFolders : List Char := ['*','*']

/-- Whether a segment stands for a name. -/
def coversName : List Char → List Char → Bool
  | [],name => name.isEmpty
  | c :: segment,name =>
    if c = '*' then name.tails.any (coversName segment)
    else
      match name with
      | [] => false
      | d :: name => c == d && coversName segment name

/-- Whether the segments of a pattern stand for the names of a path. -/
def coversNames : List (List Char) → List (List Char) → Bool
  | [],names => names.isEmpty
  | segment :: segments,names =>
    if segment = anyFolders then names.tails.any (coversNames segments)
    else
      match names with
      | [] => false
      | name :: names => coversName segment name && coversNames segments names

theorem any_tails_iff {α : Type} {test : List α → Bool} {items : List α} :
    items.tails.any test = true ↔ ∃ before after, items = before ++ after ∧ test after = true := by
  rw [List.any_eq_true]
  constructor
  · rintro ⟨after,inside,passed⟩
    obtain ⟨before,parted⟩ := (List.mem_tails _ _).mp inside
    exact ⟨before,after,parted.symm,passed⟩
  · rintro ⟨before,after,parted,passed⟩
    exact ⟨after,(List.mem_tails _ _).mpr ⟨before,parted.symm⟩,passed⟩

theorem coversName_star {segment name : List Char} : coversName ('*' :: segment) name = true ↔
    ∃ run rest, name = run ++ rest ∧ coversName segment rest = true := any_tails_iff

theorem coversName_char {c : Char} (other : c ≠ '*') {segment name : List Char} :
    coversName (c :: segment) name = true ↔ ∃ rest, name = c :: rest ∧ coversName segment rest = true := by
  rw [coversName.eq_def]
  dsimp only
  rw [if_neg other]
  cases name with
  | nil => simp
  | cons d name =>
    rw [Bool.and_eq_true,beq_iff_eq]
    constructor
    · rintro ⟨rfl,covered⟩
      exact ⟨name,rfl,covered⟩
    · rintro ⟨rest,same,covered⟩
      obtain ⟨rfl,rfl⟩ := List.cons.inj same
      exact ⟨rfl,covered⟩

theorem coversNames_folders {segments names : List (List Char)} :
    coversNames (anyFolders :: segments) names = true ↔
      ∃ before after, names = before ++ after ∧ coversNames segments after = true := any_tails_iff

theorem coversNames_cons {segment : List Char} (other : segment ≠ anyFolders)
    {segments names : List (List Char)} : coversNames (segment :: segments) names = true ↔
      ∃ name rest, names = name :: rest ∧ coversName segment name = true ∧ coversNames segments rest = true := by
  rw [coversNames.eq_def]
  dsimp only
  rw [if_neg other]
  cases names with
  | nil => simp
  | cons name names =>
    rw [Bool.and_eq_true]
    constructor
    · rintro ⟨here,later⟩
      exact ⟨name,names,rfl,here,later⟩
    · rintro ⟨_,_,same,here,later⟩
      obtain ⟨rfl,rfl⟩ := List.cons.inj same
      exact ⟨here,later⟩

theorem coversNames_nil {names : List (List Char)} : coversNames [] names = true ↔ names = [] :=
  List.isEmpty_iff

theorem coversName_of_clean {segment : List Char} (clean : '*' ∉ segment) {name : List Char} :
    coversName segment name = true ↔ name = segment := by
  induction segment generalizing name with
  | nil => exact List.isEmpty_iff
  | cons c segment ih =>
    obtain ⟨other,later⟩ := List.ne_and_not_mem_of_not_mem_cons clean
    rw [coversName_char (Ne.symm other)]
    constructor
    · rintro ⟨rest,rfl,covered⟩
      rw [(ih later).mp covered]
    · rintro rfl
      exact ⟨segment,rfl,(ih later).mpr rfl⟩

/-- Segments without stars stand for the names that they spell. -/
theorem coversNames_of_clean {segments : List (List Char)} (clean : ∀ segment ∈ segments, '*' ∉ segment)
    {names : List (List Char)} : coversNames segments names = true ↔ names = segments := by
  induction segments generalizing names with
  | nil => exact coversNames_nil
  | cons segment segments ih =>
    obtain ⟨here,later⟩ := List.forall_mem_cons.mp clean
    have other : segment ≠ anyFolders := by
      rintro rfl
      exact here List.mem_cons_self
    rw [coversNames_cons other]
    constructor
    · rintro ⟨name,rest,rfl,covered,others⟩
      rw [(coversName_of_clean here).mp covered,(ih later).mp others]
    · rintro rfl
      exact ⟨segment,segments,rfl,(coversName_of_clean here).mpr rfl,(ih later).mpr rfl⟩

theorem coversNames_ne_nil {segments : List (List Char)} {last : List Char} (other : last ≠ anyFolders)
    {names : List (List Char)} (covered : coversNames (segments ++ [last]) names = true) : names ≠ [] := by
  induction segments generalizing names with
  | nil =>
    obtain ⟨name,rest,rfl,_⟩ := (coversNames_cons other).mp covered
    exact List.cons_ne_nil name rest
  | cons segment segments ih =>
    by_cases folders : segment = anyFolders
    · subst folders
      obtain ⟨before,after,rfl,rest⟩ := coversNames_folders.mp covered
      exact List.append_ne_nil_of_right_ne_nil before (ih rest)
    · obtain ⟨name,rest,rfl,_⟩ := (coversNames_cons folders).mp covered
      exact List.cons_ne_nil name rest

-- Reading segments

/-- A segment has characters, and these are stars or stand for themselves. -/
def IsSegment (segment : List Char) : Prop :=
  segment ≠ [] ∧ ∀ c ∈ segment, c = '*' ∨ IsPlain c ∧ c ≠ '/'

instance : DecidablePred IsSegment := fun segment =>
  @instDecidableAnd _ _ inferInstance (List.decidableBAll (fun c => c = '*' ∨ IsPlain c ∧ c ≠ '/') segment)

theorem IsSegment.clean {segment : List Char} (proper : IsSegment segment) : '/' ∉ segment := by
  intro slash
  exact absurd (proper.2 '/' slash) (by decide)

def segmentToken (c : Char) : Token := if c = '*' then .anyRun else .literal c

def segmentTokens (segment : List Char) : List Token := segment.map segmentToken

/-- What was read before a segment: nothing, a name, or any folders with the separator after them. -/
inductive Position
  | start
  | name
  | folders

namespace Position

/-- The separator that is still to be read. -/
def mark : Position → List Char
  | start | folders => []
  | name => ['/']

/-- What any folders add to the tokens. -/
def folderTokens : Position → List Token
  | start => [.recursivePrefix]
  | name => [.recursiveMiddle]
  | folders => []

def tokens : Position → List (List Char) → List Token
  | _,[] => []
  | position,segment :: segments =>
    if segment = anyFolders then position.folderTokens ++ folders.tokens segments
    else position.mark.map .literal ++ segmentTokens segment ++ name.tokens segments

def spelled (position : Position) : List (List Char) → List Char
  | [] => []
  | segment :: segments => position.mark ++ segment ++ name.spelled segments

/-- The draft that is left after what was read. -/
def Left (position : Position) (tokens : List Token) (previous : Option Char) : Prop :=
  match position with
  | start => tokens = [] ∧ previous = none
  | name => tokens ≠ []
  | folders => previous = some '/' ∧
    ∃ token before, tokens = token :: before ∧ (token = .recursivePrefix ∨ token = .recursiveMiddle)

theorem spelled_start (segments : List (List Char)) : start.spelled segments = joinWith ['/'] segments := by
  cases segments with
  | nil => rfl
  | cons segment segments =>
    have later : segment ++ name.spelled segments = joinWith ['/'] (segment :: segments) := by
      induction segments generalizing segment with
      | nil => exact List.append_nil segment
      | cons next segments ih =>
        rw [Text.joinWith_cons (List.cons_ne_nil next segments),← ih next]
        simp [spelled,mark]
    exact later

end Position

theorem read_twoStars (draft : Draft) (rest : List Char) : read draft .plain ('*' :: '*' :: rest) =
    match draft.twoStars rest.head?,rest with
    | (draft,true),_ :: rest => read draft .plain rest
    | (draft,_),rest => read draft .plain rest := by
  rw [read.eq_def]
  rfl

/-- Two stars that cannot fill a segment are two runs. -/
theorem read_twoRuns {tokens : List Token} {previous : Option Char} {rest : List Char}
    (inside : (∃ c more, rest = c :: more ∧ c ≠ '/') ∨ tokens ≠ [] ∧ previous ≠ some '/') :
    read (.outside tokens previous) .plain ('*' :: '*' :: rest) =
      read (.outside (.anyRun :: .anyRun :: tokens) (some '*')) .plain rest := by
  have runs : (Draft.outside tokens previous).twoStars rest.head? =
      ((Draft.outside tokens previous).twoRuns,false) := by
    unfold Draft.twoStars
    rcases inside with ⟨c,more,rfl,other⟩ | ⟨begun,apart⟩
    · simp [Draft.inGroup,Draft.outside]
    · have later : (Draft.outside tokens previous).atSegmentStart = false := by
        unfold Draft.atSegmentStart
        split
        · next same => exact absurd same apart
        · rfl
        · rfl
        · rfl
      simp [later,show (Draft.outside tokens previous).tokens ≠ [] from begun]
  rw [read_twoStars,runs]
  rfl

theorem reverse_segmentTokens_cons (c : Char) (segment : List Char) (tokens : List Token) :
    (segmentTokens (c :: segment)).reverse ++ tokens =
      (segmentTokens segment).reverse ++ segmentToken c :: tokens := by
  simp [segmentTokens]

/-- A segment that the reader is in, or that is not just two stars, is read character by character. -/
theorem read_segment {segment rest : List Char} (known : ∀ c ∈ segment, c = '*' ∨ IsPlain c ∧ c ≠ '/')
    (single : rest.head? ≠ some '*') (tokens : List Token) (previous : Option Char)
    (inside : segment ≠ anyFolders ∨ tokens ≠ [] ∧ previous ≠ some '/') :
    read (.outside tokens previous) .plain (segment ++ rest) =
      read (.outside ((segmentTokens segment).reverse ++ tokens) (segment.getLast?.or previous)) .plain rest := by
  have begun (token : Token) {c : Char} (other : c ≠ '/') (tokens : List Token) :
      token :: tokens ≠ [] ∧ some c ≠ some '/' :=
    ⟨List.cons_ne_nil token tokens,fun same => other (Option.some.inj same)⟩
  match segment with
  | [] => rfl
  | c :: more =>
    obtain ⟨here,later⟩ := List.forall_mem_cons.mp known
    rw [reverse_segmentTokens_cons,getLast?_cons_or,List.cons_append]
    rcases here with rfl | ⟨plain,other⟩
    · match more with
      | [] => exact read_star single tokens previous
      | d :: others =>
        obtain ⟨_,last⟩ := List.forall_mem_cons.mp later
        by_cases star : d = '*'
        · subst star
          have apart : (∃ c left, others ++ rest = c :: left ∧ c ≠ '/') ∨
              tokens ≠ [] ∧ previous ≠ some '/' := by
            apply inside.imp_left
            intro longer
            cases others with
            | nil => exact absurd rfl longer
            | cons c others =>
              refine ⟨c,others ++ rest,rfl,?_⟩
              rintro rfl
              exact absurd (last '/' List.mem_cons_self) (by decide)
          rw [reverse_segmentTokens_cons,getLast?_cons_or,List.cons_append,read_twoRuns apart]
          exact read_segment last single _ _ (.inr (begun _ (by decide) _))
        · have apart : d :: others ≠ anyFolders := fun same => star (List.cons.inj same).1
          rw [List.cons_append,read_star (by simpa using star),← List.cons_append]
          exact read_segment later single _ _ (.inl apart)
    · have star : c ≠ '*' := by
        rintro rfl
        exact absurd plain (by decide)
      rw [read_plain plain,segmentToken,if_neg star]
      exact read_segment later single _ _ (.inr (begun _ other _))

-- Reading segments in a row

namespace Position

variable {position : Position} {tokens : List Token} {previous : Option Char}

theorem spelled_name {segments : List (List Char)} (some : segments ≠ []) :
    name.spelled segments = '/' :: folders.spelled segments := by
  cases segments with
  | nil => contradiction
  | cons segment segments => rfl

theorem head?_spelled_name (segments : List (List Char)) : (name.spelled segments).head? ≠ some '*' := by
  cases segments with
  | nil => exact nofun
  | cons segment segments => exact fun same => absurd (Option.some.inj same) (by decide)

theorem read_segment (position : Position) (tokens : List Token) (previous : Option Char)
    {segment : List Char} (proper : IsSegment segment) (other : segment ≠ anyFolders) {rest : List Char}
    (single : rest.head? ≠ some '*') : ∃ last,
      read (.outside tokens previous) .plain (position.mark ++ segment ++ rest) =
        read (.outside ((position.mark.map Token.literal ++ segmentTokens segment).reverse ++ tokens) last)
          .plain rest := by
  have within (tokens : List Token) (previous : Option Char) :=
    Glob.read_segment proper.2 single tokens previous (.inl other)
  cases position with
  | start => exact ⟨_,within tokens previous⟩
  | folders => exact ⟨_,within tokens previous⟩
  | name =>
    refine ⟨segment.getLast?.or (some '/'),(read_plain (by decide) tokens previous (segment ++ rest)).trans ?_⟩
    rw [within,List.reverse_append,List.append_assoc]
    rfl

theorem read_folders (left : position.Left tokens previous) (rest : List Char) : ∃ others,
    read (.outside tokens previous) .plain (position.mark ++ anyFolders ++ '/' :: rest) =
      read (.outside others (some '/')) .plain rest ∧
    folders.Left others (some '/') ∧ others.reverse = tokens.reverse ++ position.folderTokens := by
  cases position with
  | start =>
    obtain ⟨rfl,rfl⟩ := left
    exact ⟨[.recursivePrefix],read_treeStart rest,⟨rfl,_,_,rfl,.inl rfl⟩,rfl⟩
  | name =>
    refine ⟨.recursiveMiddle :: tokens,?_,⟨rfl,_,_,rfl,.inr rfl⟩,List.reverse_cons⟩
    exact (read_plain (by decide) tokens previous _).trans (read_twoStars ..)
  | folders =>
    obtain ⟨rfl,token,before,rfl,rfl | rfl⟩ := left
    · exact ⟨_,read_twoStars ..,⟨rfl,_,_,rfl,.inl rfl⟩,(List.append_nil _).symm⟩
    · exact ⟨_,read_twoStars ..,⟨rfl,_,_,rfl,.inr rfl⟩,(List.append_nil _).symm⟩

/-- Segments that end in one for a name are read to their tokens. -/
theorem read_spelled {segments : List (List Char)} {last : List Char}
    (proper : ∀ segment ∈ segments ++ [last], IsSegment segment) (closed : last ≠ anyFolders)
    (left : position.Left tokens previous) :
    read (.outside tokens previous) .plain (position.spelled (segments ++ [last])) =
      .ok (tokens.reverse ++ position.tokens (segments ++ [last])) := by
  induction segments generalizing position tokens previous with
  | nil =>
    have here := proper last (by simp)
    obtain ⟨seen,within⟩ := read_segment position tokens previous here closed (head?_spelled_name [])
    rw [List.nil_append,spelled,within]
    simp [spelled,Position.tokens,closed,read_end]
  | cons segment segments ih =>
    obtain ⟨here,later⟩ := List.forall_mem_cons.mp proper
    rw [List.cons_append,spelled,Position.tokens]
    by_cases folders : segment = anyFolders
    · subst folders
      obtain ⟨others,within,ready,grown⟩ := read_folders left (Position.folders.spelled (segments ++ [last]))
      rw [spelled_name (List.concat_ne_nil last segments),within,ih later ready,grown,if_pos rfl,
        List.append_assoc]
    · obtain ⟨seen,within⟩ :=
        read_segment position tokens previous here folders (head?_spelled_name (segments ++ [last]))
      have ready : name.Left ((position.mark.map Token.literal ++ segmentTokens segment).reverse ++ tokens) seen := by
        simp [Left,segmentTokens,here.1]
      rw [within,ih later ready,if_neg folders]
      simp

theorem tokens_folders (segments : List (List Char)) :
    position.tokens (anyFolders :: segments) = position.folderTokens ++ folders.tokens segments := if_pos rfl

theorem tokens_cons {segment : List Char} (other : segment ≠ anyFolders) (segments : List (List Char)) :
    position.tokens (segment :: segments) =
      position.mark.map .literal ++ (segmentTokens segment ++ name.tokens segments) := by
  rw [Position.tokens,if_neg other,List.append_assoc]

theorem tokens_whole (position : Position) (segments : List (List Char)) :
    ∀ token ∈ position.tokens segments, token.isWhole = true := by
  have literals (word : List Char) : ∀ token ∈ word.map Token.literal, token.isWhole = true :=
    List.forall_mem_map.mpr fun _ _ => rfl
  have inside (segment : List Char) : ∀ token ∈ segmentTokens segment, token.isWhole = true := by
    intro token member
    obtain ⟨c,_,rfl⟩ := List.mem_map.mp member
    rw [segmentToken]
    split <;> rfl
  induction segments generalizing position with
  | nil => exact List.forall_mem_nil _
  | cons segment segments ih =>
    rw [Position.tokens]
    split
    · refine List.forall_mem_append.mpr ⟨?_,ih folders⟩
      cases position with
      | start => exact List.forall_mem_singleton.mpr rfl
      | name => exact List.forall_mem_singleton.mpr rfl
      | folders => exact List.forall_mem_nil _
    · exact List.forall_mem_append.mpr ⟨List.forall_mem_append.mpr ⟨literals _,inside segment⟩,ih name⟩

theorem tokens_concat (position : Position) (segments : List (List Char)) {last : List Char} (closed : last ≠ anyFolders) :
    ∃ before, position.tokens (segments ++ [last]) = before ++ segmentTokens last := by
  induction segments generalizing position with
  | nil => exact ⟨position.mark.map .literal,by simp [Position.tokens,closed]⟩
  | cons segment segments ih =>
    rw [List.cons_append,Position.tokens]
    split
    · obtain ⟨before,same⟩ := ih folders
      exact ⟨position.folderTokens ++ before,by rw [same,List.append_assoc]⟩
    · obtain ⟨before,same⟩ := ih name
      exact ⟨position.mark.map .literal ++ segmentTokens segment ++ before,by rw [same]; simp⟩

end Position

-- Texts of segments

theorem mem_segment_iff {segment : List Char} (clean : '/' ∉ segment) {text : List Char} :
    text ∈ sequenceTexts true (segmentTokens segment) ↔ coversName segment text = true ∧ '/' ∉ text := by
  induction segment generalizing text with
  | nil =>
    rw [coversName,List.isEmpty_iff]
    constructor
    · rintro rfl
      exact ⟨rfl,List.not_mem_nil⟩
    · rintro ⟨rfl,_⟩
      rfl
  | cons c segment ih =>
    obtain ⟨other,later⟩ := List.ne_and_not_mem_of_not_mem_cons clean
    rw [segmentTokens,List.map_cons,← segmentTokens,sequenceTexts,segmentToken,Language.mem_mul]
    by_cases star : c = '*'
    · subst star
      rw [if_pos rfl,coversName_star]
      constructor
      · rintro ⟨run,passed,rest,inside,rfl⟩
        obtain ⟨covered,clear⟩ := (ih later).mp inside
        have free : '/' ∉ run := fun slash => by simpa using passed '/' slash
        exact ⟨⟨run,rest,rfl,covered⟩,by simp [free,clear]⟩
      · rintro ⟨⟨run,rest,rfl,covered⟩,clear⟩
        obtain ⟨free,last⟩ := not_or.mp (List.mem_append.not.mp clear)
        refine ⟨run,fun d inside => ?_,rest,(ih later).mpr ⟨covered,last⟩,rfl⟩
        have apart : d ≠ '/' := fun same => free (same ▸ inside)
        simpa using apart
    · rw [if_neg star,coversName_char star]
      constructor
      · rintro ⟨_,rfl,rest,inside,rfl⟩
        obtain ⟨covered,clear⟩ := (ih later).mp inside
        exact ⟨⟨rest,rfl,covered⟩,by simp [other,clear]⟩
      · rintro ⟨⟨rest,rfl,covered⟩,clear⟩
        exact ⟨[c],rfl,rest,(ih later).mpr ⟨covered,fun slash => clear (List.mem_cons_of_mem c slash)⟩,rfl⟩

theorem mem_folders_iff {text : List Char} :
    text ∈ (1 + everything * {['/']} : Language Char) ↔ text = [] ∨ ∃ front, text = front ++ ['/'] := by
  constructor
  · rintro (rfl | ⟨front,_,_,rfl,rfl⟩)
    · exact .inl rfl
    · exact .inr ⟨front,rfl⟩
  · rintro (rfl | ⟨front,rfl⟩)
    · exact .inl rfl
    · exact .inr ⟨front,fun _ _ => rfl,_,rfl,rfl⟩

/-- Folders before any folders add nothing to them. -/
theorem folders_mul_folders_mul {W : Language Char} : (1 + everything * {['/']}) *
    ((1 + everything * {['/']}) * W) = (1 + everything * {['/']}) * W := by
  ext text
  constructor
  · rintro ⟨front,outer,_,⟨middle,inner,rest,inside,rfl⟩,rfl⟩
    refine ⟨front ++ middle,mem_folders_iff.mpr ?_,rest,inside,List.append_assoc ..⟩
    rcases mem_folders_iff.mp inner with rfl | ⟨before,rfl⟩
    · rw [List.append_nil]
      exact mem_folders_iff.mp outer
    · exact .inr ⟨front ++ before,(List.append_assoc ..).symm⟩
  · intro inside
    exact ⟨[],.inl rfl,text,inside,rfl⟩

-- Joined names as texts

section Joined

variable {segment : List Char} {W : Language Char} {names : List (List Char)}

theorem join_mem_segment_iff (clean : '/' ∉ segment) (some : names ≠ []) (valid : ∀ name ∈ names, '/' ∉ name) :
    joinWith ['/'] names ∈ sequenceTexts true (segmentTokens segment) ↔
      ∃ name, names = [name] ∧ coversName segment name = true := by
  rw [mem_segment_iff clean]
  constructor
  · rintro ⟨covered,clear⟩
    have parts := Text.splitAt_joinWith some valid
    rw [Text.splitAt_of_not_mem clear] at parts
    exact ⟨_,parts.symm,covered⟩
  · rintro ⟨name,rfl,covered⟩
    exact ⟨covered,valid name List.mem_cons_self⟩

theorem join_mem_segment_mul_iff (clean : '/' ∉ segment) (some : names ≠ [])
    (valid : ∀ name ∈ names, '/' ∉ name) :
    joinWith ['/'] names ∈ sequenceTexts true (segmentTokens segment) * ({['/']} * W) ↔
      ∃ name rest, names = name :: rest ∧ rest ≠ [] ∧ coversName segment name = true ∧
        joinWith ['/'] rest ∈ W := by
  constructor
  · rintro ⟨name,inside,_,⟨_,rfl,rest,member,rfl⟩,same⟩
    obtain ⟨covered,clear⟩ := (mem_segment_iff clean).mp inside
    have parts := Text.splitAt_joinWith some valid
    dsimp only at same
    rw [← same,List.singleton_append,Text.splitAt_append_separator,Text.splitAt_of_not_mem clear] at parts
    rw [← Text.joinWith_splitAt '/' rest] at member
    exact ⟨name,_,parts.symm,Text.splitAt_ne_nil '/' rest,covered,member⟩
  · rintro ⟨name,rest,rfl,left,covered,member⟩
    have inside := (mem_segment_iff clean).mpr ⟨covered,valid name List.mem_cons_self⟩
    rw [Text.joinWith_cons left,List.append_assoc]
    exact Language.append_mem_mul inside (Language.append_mem_mul rfl member)

theorem join_mem_folders_mul_iff (some : names ≠ []) (valid : ∀ name ∈ names, '/' ∉ name) :
    joinWith ['/'] names ∈ (1 + everything * {['/']}) * W ↔
      ∃ before after, names = before ++ after ∧ after ≠ [] ∧ joinWith ['/'] after ∈ W := by
  constructor
  · rintro ⟨front,outer,rest,member,same⟩
    dsimp only at same
    rcases mem_folders_iff.mp outer with rfl | ⟨before,rfl⟩
    · obtain rfl : rest = joinWith ['/'] names := same
      exact ⟨[],names,rfl,some,member⟩
    · have parts := Text.splitAt_joinWith some valid
      rw [← same,List.append_assoc,List.singleton_append,Text.splitAt_append_separator] at parts
      rw [← Text.joinWith_splitAt '/' rest] at member
      exact ⟨_,_,parts.symm,Text.splitAt_ne_nil '/' rest,member⟩
  · rintro ⟨before,after,rfl,left,member⟩
    by_cases first : before = []
    · subst first
      exact Language.append_mem_mul (mem_folders_iff.mpr (.inl rfl)) member
    · rw [Text.joinWith_append first left]
      exact Language.append_mem_mul (mem_folders_iff.mpr (.inr ⟨_,rfl⟩)) member

/-- What lies below joined names begins with them. -/
theorem join_mem_below_iff {front : List (List Char)} (begun : front ≠ []) (clean : ∀ part ∈ front, '/' ∉ part)
    (some : names ≠ []) (valid : ∀ name ∈ names, '/' ∉ name) :
    joinWith ['/'] names ∈ ({joinWith ['/'] front} * ({['/']} * everything) : Language Char) ↔
      ∃ below, names = front ++ below ∧ below ≠ [] := by
  constructor
  · rintro ⟨_,rfl,_,⟨_,rfl,rest,_,rfl⟩,same⟩
    have parts := Text.splitAt_joinWith some valid
    dsimp only at same
    rw [← same,List.singleton_append,Text.splitAt_append_separator,Text.splitAt_joinWith begun clean] at parts
    exact ⟨_,parts.symm,Text.splitAt_ne_nil '/' rest⟩
  · rintro ⟨below,rfl,left⟩
    rw [Text.joinWith_append begun left,List.append_assoc]
    exact Language.append_mem_mul rfl (Language.append_mem_mul rfl fun _ _ => rfl)

end Joined

namespace Position

def texts (position : Position) (segments : List (List Char)) : Language Char :=
  sequenceTexts true (position.tokens segments)

theorem texts_folders {segments : List (List Char)} (some : segments ≠ []) :
    start.texts (anyFolders :: segments) = (1 + everything * {['/']}) * start.texts segments := by
  cases segments with
  | nil => contradiction
  | cons segment segments =>
    by_cases other : segment = anyFolders
    · subst other
      exact folders_mul_folders_mul.symm
    · have same : folders.tokens (segment :: segments) = start.tokens (segment :: segments) := by
        rw [tokens_cons other,tokens_cons other]
        rfl
      rw [texts,tokens_folders,same]
      rfl

theorem texts_name {segments : List (List Char)} (some : segments ≠ []) :
    name.texts segments = {['/']} * start.texts segments := by
  cases segments with
  | nil => contradiction
  | cons segment segments =>
    by_cases other : segment = anyFolders
    · subst other
      exact mul_assoc _ _ _
    · rw [texts,texts,tokens_cons other,tokens_cons other]
      rfl

theorem texts_cons {segment : List Char} (other : segment ≠ anyFolders) {segments : List (List Char)}
    (some : segments ≠ []) : start.texts (segment :: segments) =
      sequenceTexts true (segmentTokens segment) * ({['/']} * start.texts segments) := by
  rw [← texts_name some,texts,tokens_cons other]
  exact sequenceTexts_append true (segmentTokens segment) (name.tokens segments)

/-- Joined names are a text of segments if these stand for the names. -/
theorem join_mem_texts_iff {segments : List (List Char)} {last : List Char}
    (clean : ∀ segment ∈ segments ++ [last], '/' ∉ segment) (closed : last ≠ anyFolders)
    {names : List (List Char)} (some : names ≠ []) (valid : ∀ name ∈ names, '/' ∉ name) :
    joinWith ['/'] names ∈ start.texts (segments ++ [last]) ↔
      coversNames (segments ++ [last]) names = true := by
  induction segments generalizing names with
  | nil =>
    have alone : start.texts [last] = sequenceTexts true (segmentTokens last) := by
      rw [texts,tokens_cons closed]
      simp [tokens,mark]
    rw [List.nil_append,alone,join_mem_segment_iff (clean last (by simp)) some valid,coversNames_cons closed]
    constructor
    · rintro ⟨name,rfl,covered⟩
      exact ⟨name,[],rfl,covered,rfl⟩
    · rintro ⟨name,rest,rfl,covered,finished⟩
      obtain rfl := coversNames_nil.mp finished
      exact ⟨name,rfl,covered⟩
  | cons segment segments ih =>
    obtain ⟨here,later⟩ := List.forall_mem_cons.mp clean
    have more : segments ++ [last] ≠ [] := List.concat_ne_nil last segments
    rw [List.cons_append]
    by_cases folders : segment = anyFolders
    · subst folders
      rw [texts_folders more,join_mem_folders_mul_iff some valid,coversNames_folders]
      constructor
      · rintro ⟨before,after,rfl,left,member⟩
        have validAfter := (List.forall_mem_append.mp valid).2
        exact ⟨before,after,rfl,(ih later left validAfter).mp member⟩
      · rintro ⟨before,after,rfl,covered⟩
        have validAfter := (List.forall_mem_append.mp valid).2
        have left := coversNames_ne_nil closed covered
        exact ⟨before,after,rfl,left,(ih later left validAfter).mpr covered⟩
    · rw [texts_cons folders more,join_mem_segment_mul_iff here some valid,coversNames_cons folders]
      constructor
      · rintro ⟨name,rest,rfl,left,covered,member⟩
        have validRest := (List.forall_mem_cons.mp valid).2
        exact ⟨name,rest,rfl,covered,(ih later left validRest).mp member⟩
      · rintro ⟨name,rest,rfl,covered,others⟩
        have validRest := (List.forall_mem_cons.mp valid).2
        have left := coversNames_ne_nil closed others
        exact ⟨name,rest,rfl,left,covered,(ih later left validRest).mpr others⟩

end Position

end SourceAtlas.Glob
