import SourceAtlas.Proofs.DefaultSources
import SourceAtlas.Proofs.GlobSegments

/-! Patterns of compiler options that name folders. Such a pattern stands for all that lies below the folders
it covers, unless a star in it makes it stand for itself. -/
namespace SourceAtlas

open Glob
open SourceFilter (dropHere expandFolder compilerPatterns)
open Text (joinWith splitAt)

/-- A pattern whose last segment is a name without dots. Steps to the same folder may stand before its
segments, and separators after them. -/
structure FolderPattern where
  steps : Nat
  earlier : List (List Char)
  last : List Char
  slashes : Nat
  proper : ∀ segment ∈ earlier ++ [last], IsSegment segment
  named : '*' ∉ last ∧ '.' ∉ last
  relative : (earlier ++ [last]).head? ≠ some ['.']

namespace FolderPattern

variable (pattern : FolderPattern)

def segments : List (List Char) := pattern.earlier ++ [pattern.last]

def joined : List Char := joinWith ['/'] pattern.segments

def text : String :=
  String.ofList ((List.replicate pattern.steps ['.','/']).flatten ++ pattern.joined ++
    List.replicate pattern.slashes '/')

def isStarred : Bool := pattern.earlier.any fun segment => segment.contains '*'

-- What a pattern is expanded to

theorem dropHere_steps (steps : Nat) (rest : List Char) :
    dropHere ((List.replicate steps ['.','/']).flatten ++ rest) = dropHere rest := by
  induction steps with
  | zero => rfl
  | succ steps ih => exact ih

theorem dropHere_part {part : List Char} (full : part ≠ []) (clean : '/' ∉ part) (other : part ≠ ['.'])
    (rest : List Char) : dropHere (part ++ rest) = part ++ rest := by
  unfold dropHere
  split
  · next after same =>
    obtain ⟨c,more,rfl⟩ := List.exists_cons_of_ne_nil full
    obtain ⟨rfl,later⟩ := List.cons.inj same
    cases more with
    | nil => exact absurd rfl other
    | cons d more =>
      obtain ⟨rfl,_⟩ := List.cons.inj later
      simp at clean
  · rfl

theorem last_proper : IsSegment pattern.last := pattern.proper pattern.last (by simp)

theorem last_closed : pattern.last ≠ anyFolders := fun same =>
  pattern.named.1 (same ▸ List.mem_cons_self)

theorem joined_eq : pattern.joined = pattern.earlier.flatMap (· ++ ['/']) ++ pattern.last :=
  Text.joinWith_concat ['/'] pattern.earlier pattern.last

theorem dropHere_joined (rest : List Char) : dropHere (pattern.joined ++ rest) = pattern.joined ++ rest := by
  have begun : ∃ first more, pattern.segments = first :: more :=
    List.exists_cons_of_ne_nil (List.concat_ne_nil pattern.last pattern.earlier)
  obtain ⟨first,more,begins⟩ := begun
  have inside : first ∈ pattern.segments := begins ▸ List.mem_cons_self
  have proper : IsSegment first := pattern.proper first inside
  have other : first ≠ ['.'] := by
    intro same
    have head : pattern.segments.head? = some first := by rw [begins,List.head?_cons]
    exact pattern.relative (same ▸ head)
  have spelled : ∃ left, pattern.joined = first ++ left := by
    rw [joined,begins]
    by_cases alone : more = []
    · exact ⟨[],by rw [alone,List.append_nil]; rfl⟩
    · exact ⟨_,(Text.joinWith_cons alone).trans (List.append_assoc ..)⟩
  obtain ⟨left,spelled⟩ := spelled
  rw [spelled,List.append_assoc]
  exact dropHere_part proper.1 proper.clean other _

theorem trimmed_eq : ((dropHere pattern.text.toList).reverse.dropWhile (· == '/')).reverse = pattern.joined := by
  have slashes : ∀ c ∈ List.replicate pattern.slashes '/', (c == '/') = true := by
    intro c inside
    rw [(List.mem_replicate.mp inside).2]
    rfl
  obtain ⟨word,c,ends⟩ := (List.eq_nil_or_concat pattern.last).resolve_left pattern.last_proper.1
  have other : (c == '/') = false := by
    have apart : c ≠ '/' := by
      rintro rfl
      exact pattern.last_proper.clean (by simp [ends])
    simpa using apart
  rw [text,String.toList_ofList,List.append_assoc,dropHere_steps,dropHere_joined,List.reverse_append,
    List.reverse_replicate,List.dropWhile_append_of_pos slashes,joined_eq,ends]
  simp [other]

theorem last_eq : (pattern.joined.reverse.takeWhile (· != '/')).reverse = pattern.last := by
  have inside : ∀ c ∈ pattern.last.reverse, (c != '/') = true := by
    intro c member
    have apart : c ≠ '/' := fun same => pattern.last_proper.clean (same ▸ List.mem_reverse.mp member)
    simpa using apart
  have stopped : (pattern.earlier.flatMap (· ++ ['/'])).reverse.takeWhile (· != '/') = [] := by
    rcases Text.flatMap_separator ['/'] pattern.earlier with none | ⟨before,some⟩
    · rw [none]
      rfl
    · rw [some]
      simp
  rw [joined_eq,List.reverse_append,List.takeWhile_append_of_pos inside,stopped,List.append_nil,
    List.reverse_reverse]

theorem contains_joined : pattern.joined.contains '*' = pattern.isStarred := by
  rw [Bool.eq_iff_iff,isStarred,List.contains_iff_mem,joined,Text.mem_joinWith (by decide)]
  simp [segments,pattern.named.1]

theorem expandFolder_text : expandFolder pattern.text = String.ofList
    (if pattern.isStarred then pattern.joined else pattern.joined ++ ['/','*','*']) := by
  have undotted : pattern.last.contains '.' = false := by
    apply Bool.eq_false_iff.mpr
    intro inside
    exact pattern.named.2 (List.contains_iff_mem.mp inside)
  simp only [expandFolder,trimmed_eq,last_eq,contains_joined,undotted,Bool.or_false]
  split <;> rfl

-- How it is read

def tokens : List Token :=
  if pattern.isStarred then Position.start.tokens pattern.segments
  else pattern.joined.map .literal ++ [.recursiveSuffix]

theorem segments_plain {pattern : FolderPattern} (plain : pattern.isStarred = false) :
    ∀ segment ∈ pattern.segments, '*' ∉ segment := by
  intro segment inside star
  rcases List.mem_append.mp inside with earlier | last
  · have starred : pattern.isStarred = true :=
      List.any_eq_true.mpr ⟨segment,earlier,List.contains_iff_mem.mpr star⟩
    rw [plain] at starred
    cases starred
  · rw [List.mem_singleton.mp last] at star
    exact pattern.named.1 star

theorem joined_plain {pattern : FolderPattern} (plain : pattern.isStarred = false) :
    ∀ c ∈ pattern.joined, IsPlain c := by
  intro c inside
  by_cases slash : c = '/'
  · subst slash
    decide
  · obtain ⟨segment,member,here⟩ := (Text.mem_joinWith (by simpa using slash)).mp inside
    rcases (pattern.proper segment member).2 c here with rfl | ⟨stands,_⟩
    · exact absurd here (segments_plain plain segment member)
    · exact stands

theorem read_text : read .empty .plain (expandFolder pattern.text).toList = .ok pattern.tokens := by
  rw [expandFolder_text,String.toList_ofList,tokens]
  cases starred : pattern.isStarred with
  | true =>
    rw [if_pos rfl,if_pos rfl,joined,← Position.spelled_start]
    exact Position.read_spelled pattern.proper pattern.last_closed ⟨rfl,rfl⟩
  | false =>
    rw [if_neg Bool.false_ne_true,if_neg Bool.false_ne_true]
    have read := read_plainText (joined_plain starred) [] none ['/','*','*']
    rw [read_treeEnd,List.append_nil,List.reverse_reverse] at read
    exact read

theorem tokens_whole : ∀ token ∈ pattern.tokens, token.isWhole = true := by
  rw [tokens]
  split
  · exact Position.tokens_whole _ _
  · exact List.forall_mem_append.mpr
      ⟨List.forall_mem_map.mpr fun _ _ => rfl,List.forall_mem_singleton.mpr rfl⟩

theorem tokens_several : pattern.tokens ≠ [.recursivePrefix] := by
  rw [tokens]
  split
  · obtain ⟨before,same⟩ := Position.tokens_concat .start pattern.earlier pattern.last_closed
    obtain ⟨word,c,ends⟩ := (List.eq_nil_or_concat pattern.last).resolve_left pattern.last_proper.1
    intro alone
    have last := congrArg List.getLast? (same.symm.trans alone)
    rw [ends,segmentTokens,List.concat_eq_append,List.map_append,← List.append_assoc,List.map_singleton,
      List.getLast?_concat,segmentToken] at last
    split at last <;> cases last
  · intro same
    have last := congrArg List.getLast? same
    rw [List.getLast?_concat] at last
    cases last

theorem compilerPatterns_text :
    compilerPatterns [pattern.text] = .ok [⟨true,pattern.tokens⟩] := by
  have reads : ∀ other ∈ [pattern],
      read .empty .plain (expandFolder other.text).toList = .ok other.tokens := fun other _ => other.read_text
  exact readSet_map reads fun other _ => other.tokens_whole

-- What it stands for

theorem anyMatch_iff {path : Path} {names : List String} (parts : path.components = names.map .name)
    (some : names ≠ []) : anyMatch [⟨true,pattern.tokens⟩] path.key = true ↔
      path.key.toList ∈ sequenceTexts true pattern.tokens := by
  rw [anyMatch,List.any_cons,List.any_nil,Bool.or_false,
    Pattern.isMatch_iff pattern.tokens_whole pattern.tokens_several]
  exact and_iff_left fun _ => SourceFilter.hasName_of_parts parts some

theorem mem_starred_iff {pattern : FolderPattern} (starred : pattern.isStarred = true)
    {names : List (List Char)} (some : names ≠ []) (valid : ∀ name ∈ names, '/' ∉ name) :
    joinWith ['/'] names ∈ sequenceTexts true pattern.tokens ↔ coversNames pattern.segments names = true := by
  rw [tokens,if_pos starred]
  exact Position.join_mem_texts_iff (fun segment inside => (pattern.proper segment inside).clean)
    pattern.last_closed some valid

theorem mem_plain_iff {pattern : FolderPattern} (plain : pattern.isStarred = false)
    {names : List (List Char)} (some : names ≠ []) (valid : ∀ name ∈ names, '/' ∉ name) :
    joinWith ['/'] names ∈ sequenceTexts true pattern.tokens ↔
      ∃ folder below, names = folder ++ below ∧ below ≠ [] ∧ coversNames pattern.segments folder = true := by
  have shape : sequenceTexts true pattern.tokens = {pattern.joined} * ({['/']} * everything) := by
    have last : sequenceTexts true [.recursiveSuffix] = {['/']} * everything := mul_one _
    rw [tokens,plain,if_neg Bool.false_ne_true,sequenceTexts_append,sequenceTexts_literals,last]
  have lies := join_mem_below_iff (List.concat_ne_nil pattern.last pattern.earlier)
    (fun segment inside => (pattern.proper segment inside).clean) some valid
  simp only [coversNames_of_clean (segments_plain plain)]
  rw [shape]
  apply lies.trans
  constructor
  · rintro ⟨below,rfl,left⟩
    exact ⟨_,below,rfl,left,rfl⟩
  · rintro ⟨_,below,rfl,left,rfl⟩
    exact ⟨below,rfl,left⟩

end FolderPattern

/-- A pattern that names folders stands for all that lies below the folders it covers if there is no star in
it. With a star it stands for the paths that it covers itself. -/
theorem compilerPatterns_folder (pattern : FolderPattern) : ∃ patterns,
    compilerPatterns [pattern.text] = .ok patterns ∧
      ∀ (path : Path) (names : List String), path.components = names.map .name → names ≠ [] →
        (anyMatch patterns path.key = true ↔
          if pattern.isStarred then coversNames pattern.segments (names.map String.toList) = true
          else ∃ folder below, names = folder ++ below ∧ below ≠ [] ∧
            coversNames pattern.segments (folder.map String.toList) = true) := by
  refine ⟨_,pattern.compilerPatterns_text,fun path names parts some => ?_⟩
  have valid : ∀ name ∈ names.map String.toList, '/' ∉ name :=
    List.forall_mem_map.mpr fun name inside => (SourceFilter.isName_of_parts parts name inside).2.2.2
  have full : names.map String.toList ≠ [] := by simpa using some
  rw [pattern.anyMatch_iff parts some,SourceFilter.key_of_names parts]
  cases starred : pattern.isStarred with
  | true => exact FolderPattern.mem_starred_iff starred full valid
  | false =>
    rw [FolderPattern.mem_plain_iff starred full valid,if_neg Bool.false_ne_true]
    constructor
    · rintro ⟨folder,below,parted,left,covered⟩
      obtain ⟨folder,below,rfl,rfl,rfl⟩ := List.map_eq_append_iff.mp parted
      exact ⟨folder,below,rfl,by simpa using left,covered⟩
    · rintro ⟨folder,below,rfl,left,covered⟩
      exact ⟨_,_,List.map_append,by simpa using left,covered⟩

def sourceFolder : FolderPattern :=
  ⟨1,[],['s','r','c'],1,by decide,by decide,by decide⟩

def packageFolders : FolderPattern :=
  ⟨0,["packages".toList,['*']],['s','r','c'],0,by decide,by decide,by decide⟩

theorem compilerPatterns_folder_packages :
    (∃ patterns, compilerPatterns ["./src/"] = .ok patterns ∧ anyMatch patterns "src/a/x.ts" = true) ∧
    ∃ patterns, compilerPatterns ["packages/*/src"] = .ok patterns ∧
      anyMatch patterns "packages/a/src" = true ∧ anyMatch patterns "packages/a/src/x.ts" = false := by
  obtain ⟨below,readBelow,lies⟩ := compilerPatterns_folder sourceFolder
  obtain ⟨self,readSelf,stands⟩ := compilerPatterns_folder packageFolders
  have starred : packageFolders.isStarred = true := by decide
  simp only [starred,if_true] at stands
  refine ⟨⟨below,readBelow,?_⟩,self,readSelf,?_,?_⟩
  · exact (lies ⟨"src/a/x.ts"⟩ ["src","a","x.ts"] (by decide) (by decide)).mpr
      ⟨["src"],["a","x.ts"],rfl,by decide,by decide⟩
  · exact (stands ⟨"packages/a/src"⟩ ["packages","a","src"] (by decide) (by decide)).mpr (by decide)
  · apply Bool.eq_false_iff.mpr
    intro taken
    have covered :=
      (stands ⟨"packages/a/src/x.ts"⟩ ["packages","a","src","x.ts"] (by decide) (by decide)).mp taken
    exact absurd covered (by decide)

/-- Not every pattern that names folders stands for what lies below those it covers. -/
theorem folderPattern_uncovered : ¬∀ pattern : FolderPattern, ∃ patterns,
    compilerPatterns [pattern.text] = .ok patterns ∧
      ∀ (path : Path) (folder below : List String), path.components = (folder ++ below).map .name →
        below ≠ [] → coversNames pattern.segments (folder.map String.toList) = true →
        anyMatch patterns path.key = true := by
  intro always
  obtain ⟨patterns,read,covers⟩ := always packageFolders
  rw [packageFolders.compilerPatterns_text] at read
  obtain rfl := Except.ok.inj read
  have taken := covers ⟨"packages/a/src/x.ts"⟩ ["packages","a","src"] ["x.ts"] (by decide) (by decide) (by decide)
  have missed : anyMatch [⟨true,packageFolders.tokens⟩] "packages/a/src/x.ts" = false := by decide +kernel
  exact Bool.false_ne_true (missed.symm.trans taken)

end SourceAtlas
