import Mathlib.Data.Nat.Find
import SourceAtlas.Proofs.CommentMargin

/-! What the removal of comments leaves between two words. Blanks and comments between them leave blanks
only, and nothing at all exactly if a comment touches the second word and no line ends in between. -/
namespace SourceAtlas.Syntax

/-- A byte of a name or a keyword: a letter, a digit, an underscore or a dollar sign. -/
def isWordByte (byte : UInt8) : Bool :=
  (0x30 ≤ byte && byte ≤ 0x39) || (0x41 ≤ byte && byte ≤ 0x5A) || (0x61 ≤ byte && byte ≤ 0x7A) ||
    byte == 0x5F || byte == 0x24

def isWhiteByte (byte : UInt8) : Bool := (0x09 ≤ byte && byte ≤ 0x0D) || byte == 0x20

def WhiteAt (bytes : List UInt8) (position : Nat) : Prop :=
  ∃ byte, bytes[position]? = some byte ∧ isWhiteByte byte = true

def Node.commented (node : Node) (position : Nat) : Bool := node.comments.any (·.span.covers position)

/-- Comments as a lexer makes them: none is empty, they follow one another, and one that runs over the
end of a line does not end in a blank. -/
structure CommentsLexed (bytes : List UInt8) (node : Node) : Prop where
  solid : ∀ comment ∈ node.comments, comment.start < comment.stop
  apart : ∀ first ∈ node.comments, ∀ second ∈ node.comments, first.start < second.start →
    first.stop ≤ second.start
  closed : ∀ comment ∈ node.comments, ∀ i, comment.span.covers i = true → LineFeedAt bytes i →
    ¬BlankAt bytes (comment.stop - 1)

/-- Two bytes of words outside comments, with nothing but white space and comments between them. -/
structure WordsAround (bytes : List UInt8) (node : Node) (first second : Nat) (a b : UInt8) : Prop where
  inside : node.span.covers first = true ∧ node.span.covers second = true
  reads : bytes[first]? = some a ∧ bytes[second]? = some b
  words : isWordByte a = true ∧ isWordByte b = true
  code : node.commented first = false ∧ node.commented second = false
  between : ∀ i, first < i → i < second → node.commented i = false → WhiteAt bytes i
  remark : ∃ i, first < i ∧ i < second ∧ node.commented i = true

/-- The text that the removal of comments keeps from `low` up to, but not including, `high`. -/
def keptText (bytes : List UInt8) (node : Node) (low high : Nat) : List Char :=
  Utf8.decodeLossy (select (fun i => low ≤ i && i < high && isKept bytes node i) bytes)

theorem commented_iff {node : Node} {i : Nat} :
    node.commented i = true ↔ ∃ comment ∈ node.comments, comment.start ≤ i ∧ i < comment.stop := by
  simp only [Node.commented,List.any_eq_true,covers_iff]
  rfl

theorem not_commented_iff {node : Node} {i : Nat} :
    node.commented i = false ↔ ∀ comment ∈ node.comments, comment.start ≤ i → comment.stop ≤ i := by
  rw [← Bool.not_eq_true,commented_iff]
  simp

theorem not_blankAt_of_word {bytes : List UInt8} {i : Nat} {byte : UInt8}
    (read : bytes[i]? = some byte) (word : isWordByte byte = true) : ¬BlankAt bytes i := by
  rintro ⟨other,same,blank⟩
  cases Option.some.inj (read.symm.trans same)
  simp only [isBlankByte,isLineTail,isIndent,Bool.or_eq_true,beq_iff_eq] at blank
  rcases blank with ((rfl | rfl) | rfl) | rfl <;> exact absurd word (by decide)

theorem LineFeedAt.blankAt {bytes : List UInt8} {i : Nat} (lineFeed : LineFeedAt bytes i) :
    BlankAt bytes i := ⟨0x0A,lineFeed,rfl⟩

/-- A position outside comments is cut for the indentation before a comment, or for what is left of the
line after a comment that is alone on it. -/
theorem comment_beside_cut {bytes : List UInt8} {node : Node} (nested : node.Nested) {i : Nat}
    (code : node.commented i = false) (cut : isKept bytes node i = false) : ∃ comment ∈ node.comments,
      indentStart bytes node.start comment.start ≤ i ∧ i < comment.start ∨
      StartsLine bytes node.span (indentStart bytes node.start comment.start) ∧ comment.stop ≤ i ∧
        i ≤ tailStop bytes comment.stop node.stop ∧
        LineFeedAt bytes (tailStop bytes comment.stop node.stop) := by
  rw [isKept,Bool.not_eq_false',List.any_eq_true] at cut
  obtain ⟨span,member,covered⟩ := cut
  obtain ⟨comment,inside,rfl⟩ := (mem_cuts nested).mp member
  have low : node.span.start ≤ comment.span.start := (nested.within (mem_comments.mp inside).1).1
  have apart := not_commented_iff.mp code comment inside
  refine ⟨comment,inside,?_⟩
  rw [covers_iff] at covered
  rcases widen_cases bytes low with ⟨starts,_,lineFeed,widened⟩ | ⟨_,_,widened⟩ | ⟨_,widened⟩
  all_goals rw [widened] at covered
  · rcases Nat.lt_or_ge i comment.start with before | after
    · exact .inl ⟨covered.1,before⟩
    · exact .inr ⟨starts,apart after,Nat.le_of_lt_succ covered.2,lineFeed⟩
  · exact absurd (apart covered.1) (Nat.not_le_of_lt covered.2)
  · rcases Nat.lt_or_ge i comment.start with before | after
    · exact .inl ⟨covered.1,before⟩
    · exact absurd (apart after) (Nat.not_le_of_lt covered.2)

section Gap

variable {bytes : List UInt8} {node : Node} (nested : node.Nested) (bounded : node.stop ≤ bytes.length)
include nested bounded

theorem indentAt_of_indentStart_le {comment : Node} (inside : comment ∈ node.comments) {i : Nat}
    (above : indentStart bytes node.start comment.start ≤ i) (below : i < comment.start) :
    IndentAt bytes i := by
  obtain ⟨low,high⟩ := nested.within (mem_comments.mp inside).1
  have forward := nested.forward comment (mem_comments.mp inside).1
  exact indent_of_indentStart_le low (by omega) above below

variable (lexed : CommentsLexed bytes node)
include lexed

/-- Before a comment that starts its line in a node that starts earlier, the line before has ended, and
outside comments. -/
theorem lineFeed_before_comment {comment : Node} (inside : comment ∈ node.comments) {first : Nat}
    (start : node.start ≤ first) (solid : ¬BlankAt bytes first) (before : first < comment.start)
    (starts : StartsLine bytes node.span (indentStart bytes node.start comment.start)) :
    ∃ i, first < i ∧ i < comment.start ∧ LineFeedAt bytes i ∧ node.commented i = false := by
  have low := (nested.within (mem_comments.mp inside).1).1
  have high := indentStart_le bytes node.start comment.start
  have after : first < indentStart bytes node.start comment.start := by
    by_contra reached
    exact solid (blankAt_of_indent
      (indentAt_of_indentStart_le nested bounded inside (Nat.le_of_not_lt reached) before))
  rcases starts with same | ⟨_,lineFeed⟩
  · simp only [Node.span] at same
    omega
  have later : first ≠ indentStart bytes node.start comment.start - 1 := by
    rintro rfl
    exact solid lineFeed.blankAt
  refine ⟨_,by omega,by omega,lineFeed,?_⟩
  by_contra commented
  obtain ⟨other,member,covered⟩ := commented_iff.mp (by simpa using commented)
  have order := lexed.apart other member comment inside (by omega)
  -- The other comment would end in a blank: in its line feed, or in the indentation after that.
  refine lexed.closed other member _ (covers_iff.mpr covered) lineFeed ?_
  rcases Nat.lt_or_ge (other.stop - 1) (indentStart bytes node.start comment.start) with short | long
  · rw [show other.stop - 1 = indentStart bytes node.start comment.start - 1 by omega]
    exact lineFeed.blankAt
  · exact blankAt_of_indent (indentAt_of_indentStart_le nested bounded inside long (by omega))

variable {first second : Nat} {a b : UInt8} (around : WordsAround bytes node first second a b)
include around

/-- Between the words, a position after a comment is cut only if a line has ended before that comment. -/
theorem lineFeed_before_cut {i : Nat} (after : first < i) (code : node.commented i = false)
    (cut : isKept bytes node i = false) :
    (∃ comment ∈ node.comments, indentStart bytes node.start comment.start ≤ i ∧ i < comment.start) ∨
      ∃ j, first < j ∧ j < i ∧ LineFeedAt bytes j ∧ node.commented j = false := by
  have solid := not_blankAt_of_word around.reads.1 around.words.1
  obtain ⟨comment,inside,⟨above,below⟩ | ⟨starts,above,below,_⟩⟩ :=
    comment_beside_cut nested code cut
  · exact .inl ⟨comment,inside,above,below⟩
  · right
    have begun : first < comment.stop := by
      by_contra ended
      exact solid (blankAt_of_lineTail
        (lineTail_of_lt_tailStop (Nat.le_of_not_lt ended) (Nat.lt_of_lt_of_le after below)))
    have before : first < comment.start := by
      by_contra open'
      have := not_commented_iff.mp around.code.1 comment inside (Nat.le_of_not_lt open')
      omega
    have start : node.start ≤ first := (covers_iff.mp around.inside.1).1
    obtain ⟨j,later,earlier,lineFeed,free⟩ :=
      lineFeed_before_comment nested bounded lexed inside start solid before starts
    have := nested.forward comment (mem_comments.mp inside).1
    exact ⟨j,later,by omega,lineFeed,free⟩

/-- The first line that ends between the words keeps its line feed. -/
theorem kept_of_lineFeed {i : Nat} (after : first < i) (before : i < second)
    (lineFeed : LineFeedAt bytes i) (code : node.commented i = false) :
    ∃ j, first < j ∧ j < second ∧ isKept bytes node j = true := by
  induction i using Nat.strong_induction_on with
  | _ i ih =>
    cases kept : isKept bytes node i with
    | true => exact ⟨i,after,before,kept⟩
    | false =>
      rcases lineFeed_before_cut nested bounded lexed around after code kept with
        ⟨comment,inside,above,below⟩ | earlier
      · exact absurd (indentAt_of_indentStart_le nested bounded inside above below) lineFeed.not_indent
      · obtain ⟨j,later,below,lineFeed,free⟩ := earlier
        exact ih j below later (by omega) lineFeed free

theorem kept_of_not_indent {i : Nat} (after : first < i) (before : i < second)
    (code : node.commented i = false) (solid : ¬IndentAt bytes i) :
    ∃ j, first < j ∧ j < second ∧ isKept bytes node j = true := by
  cases kept : isKept bytes node i with
  | true => exact ⟨i,after,before,kept⟩
  | false =>
    rcases lineFeed_before_cut nested bounded lexed around after code kept with
      ⟨comment,inside,above,below⟩ | earlier
    · exact absurd (indentAt_of_indentStart_le nested bounded inside above below) solid
    · obtain ⟨j,later,below,lineFeed,free⟩ := earlier
      exact kept_of_lineFeed nested bounded lexed around later (by omega) lineFeed free

/-- If no comment touches the second word, something before that word is kept. -/
theorem kept_of_apart (apart : ∀ comment ∈ node.comments, comment.stop ≠ second) :
    ∃ j, first < j ∧ j < second ∧ isKept bytes node j = true := by
  obtain ⟨i,after,before,_⟩ := around.remark
  have free := not_commented_iff.mp around.code.2
  have code : node.commented (second - 1) = false := by
    refine not_commented_iff.mpr fun comment inside below => ?_
    have := free comment inside (by omega)
    have := apart comment inside
    omega
  have later : first < second - 1 := by omega
  cases kept : isKept bytes node (second - 1) with
  | true => exact ⟨second - 1,later,by omega,kept⟩
  | false =>
    rcases lineFeed_before_cut nested bounded lexed around later code kept with
      ⟨comment,inside,above,below⟩ | ⟨j,above,below,lineFeed,clear⟩
    · have touched : second ≠ comment.start := by
        rintro rfl
        have := free comment inside (Nat.le_refl _)
        have := lexed.solid comment inside
        omega
      exact absurd (blankAt_of_indent
        (indentAt_of_indentStart_le nested bounded inside (i := second) (by omega) (by omega)))
        (not_blankAt_of_word around.reads.2 around.words.2)
    · exact kept_of_lineFeed nested bounded lexed around above (by omega) lineFeed clear

end Gap

/-- The next comment after a position outside comments, if one ends at a later position. -/
theorem next_comment {node : Node} {i second : Nat}
    (solid : ∀ comment ∈ node.comments, comment.start < comment.stop) (before : i < second)
    (code : node.commented i = false) (touched : ∃ comment ∈ node.comments, comment.stop = second) :
    ∃ comment ∈ node.comments, i < comment.start ∧ comment.start < second ∧
      ∀ j, i ≤ j → j < comment.start → node.commented j = false := by
  obtain ⟨last,member,rfl⟩ := touched
  have free := not_commented_iff.mp code
  have starts (comment : Node) (inside : comment ∈ node.comments) : node.commented comment.start = true :=
    commented_iff.mpr ⟨comment,inside,Nat.le_refl _,solid comment inside⟩
  have later : i < last.start := by
    have := free last member
    omega
  have found : ∃ q, i < q ∧ node.commented q = true := ⟨last.start,later,starts last member⟩
  obtain ⟨after,commented⟩ := Nat.find_spec found
  have earlier (j : Nat) (above : i < j) (below : j < Nat.find found) : node.commented j = false := by
    have := Nat.find_min found below
    simpa [above] using this
  obtain ⟨comment,inside,low,high⟩ := commented_iff.mp commented
  have first : comment.start = Nat.find found := by
    by_contra apart
    have := free comment inside
    have := (starts comment inside).symm.trans (earlier comment.start (by omega) (by omega))
    contradiction
  have least := Nat.find_min' found ⟨later,starts last member⟩
  have := solid last member
  refine ⟨comment,inside,by omega,by omega,fun j above below => ?_⟩
  rcases Nat.eq_or_lt_of_le above with rfl | above
  · exact code
  · exact earlier j above (by omega)

section Gap

variable {bytes : List UInt8} {node : Node} (nested : node.Nested) (bounded : node.stop ≤ bytes.length)
  (lexed : CommentsLexed bytes node) {first second : Nat} {a b : UInt8}
  (around : WordsAround bytes node first second a b)
include nested bounded lexed around

/-- A comment that touches the second word takes the spaces and tabs before it along, and so does each
comment before that one. -/
theorem cut_of_touched (touched : ∃ comment ∈ node.comments, comment.stop = second)
    (indents : ∀ i, first < i → i < second → node.commented i = false → IndentAt bytes i) {i : Nat}
    (after : first < i) (before : i < second) : isKept bytes node i = false := by
  cases code : node.commented i with
  | true =>
    obtain ⟨comment,inside,covered⟩ := List.any_eq_true.mp code
    exact not_isKept_of_comment nested bounded inside covered
  | false =>
    obtain ⟨comment,inside,later,earlier,free⟩ := next_comment lexed.solid before code touched
    have start : node.start ≤ first := (covers_iff.mp around.inside.1).1
    obtain ⟨low,high⟩ := nested.within (mem_comments.mp inside).1
    have forward := nested.forward comment (mem_comments.mp inside).1
    have reached : indentStart bytes node.start comment.start ≤ i :=
      indentStart_le_of_indent (by omega) (by omega) (by omega) fun j above below =>
        indents j (by omega) (by omega) (free j above below)
    have inLine : ¬StartsLine bytes node.span (indentStart bytes node.start comment.start) := by
      intro starts
      obtain ⟨j,above,below,lineFeed,clear⟩ := lineFeed_before_comment nested bounded lexed inside start
        (not_blankAt_of_word around.reads.1 around.words.1) (by omega) starts
      exact lineFeed.not_indent (indents j above (by omega) clear)
    have widened : widen bytes node.span comment.span =
        ⟨indentStart bytes node.start comment.start,comment.stop⟩ := by
      have inside : node.span.start ≤ comment.span.start := low
      rcases widen_cases bytes inside with
        ⟨starts,_⟩ | ⟨starts,_⟩ | ⟨_,widened⟩
      · exact absurd starts inLine
      · exact absurd starts inLine
      · exact widened
    rw [isKept,Bool.not_eq_false',List.any_eq_true]
    refine ⟨_,(mem_cuts nested).mpr ⟨comment,inside,rfl⟩,?_⟩
    rw [widened,covers_iff]
    exact ⟨reached,by dsimp only; omega⟩

/-- Everything between the words goes exactly if a comment touches the second word and there are only
spaces and tabs besides comments. -/
theorem cut_between_iff : (∀ i, first < i → i < second → isKept bytes node i = false) ↔
    (∃ comment ∈ node.comments, comment.stop = second) ∧
      ∀ i, first < i → i < second → node.commented i = false → IndentAt bytes i := by
  constructor
  · intro gone
    have nothing : ¬∃ j, first < j ∧ j < second ∧ isKept bytes node j = true := by
      rintro ⟨j,above,below,kept⟩
      exact absurd (kept.symm.trans (gone j above below)) (by decide)
    constructor
    · by_contra apart
      exact nothing (kept_of_apart nested bounded lexed around
        fun comment inside same => apart ⟨comment,inside,same⟩)
    · intro i above below code
      by_contra solid
      exact nothing (kept_of_not_indent nested bounded lexed around above below code solid)
  · rintro ⟨touched,indents⟩ i above below
    exact cut_of_touched nested bounded lexed around touched indents above below

end Gap

-- Text

theorem toNat_ofNat_ascii {n : Nat} (ascii : n < 0x80) : (Char.ofNat n).toNat = n := by
  rw [Char.ofNat,dif_pos (Or.inl (by omega))]
  rfl

theorem word_ascii {byte : UInt8} (word : isWordByte byte = true) :
    byte.toNat < 0x80 ∧ Text.isBlank (Char.ofNat byte.toNat) = false := by
  simp only [isWordByte,Bool.or_eq_true,Bool.and_eq_true,decide_eq_true_eq,beq_iff_eq,
    UInt8.le_iff_toNat_le,← UInt8.toNat_inj,UInt8.reduceToNat] at word
  have ascii : byte.toNat < 0x80 := by omega
  refine ⟨ascii,?_⟩
  simp only [Text.isBlank,toNat_ofNat_ascii ascii,Bool.or_eq_false_iff,Bool.and_eq_false_iff,
    decide_eq_false_iff_not,beq_eq_false_iff_ne]
  omega

theorem white_ascii {byte : UInt8} (white : isWhiteByte byte = true) :
    byte.toNat < 0x80 ∧ Text.isBlank (Char.ofNat byte.toNat) = true := by
  simp only [isWhiteByte,Bool.or_eq_true,Bool.and_eq_true,decide_eq_true_eq,beq_iff_eq,
    UInt8.le_iff_toNat_le,← UInt8.toNat_inj,UInt8.reduceToNat] at white
  have ascii : byte.toNat < 0x80 := by omega
  refine ⟨ascii,?_⟩
  simp only [Text.isBlank,toNat_ofNat_ascii ascii,Bool.or_eq_true,Bool.and_eq_true,decide_eq_true_eq,
    beq_iff_eq]
  omega

theorem decodeLossy_of_ascii {bytes : List UInt8} (ascii : ∀ byte ∈ bytes, byte.toNat < 0x80) :
    Utf8.decodeLossy bytes = bytes.map fun byte => Char.ofNat byte.toNat := by
  induction bytes with
  | nil => rfl
  | cons byte rest ih =>
    obtain ⟨here,later⟩ := List.forall_mem_cons.mp ascii
    have split := Utf8.decodeLossy_ascii [] rest here
    rw [List.nil_append] at split
    rw [split,ih later]
    rfl

theorem trimEnd_append_cons {c : Char} (solid : Text.isBlank c = false) (front back : List Char) :
    Text.trimEnd (front ++ c :: back) = front ++ c :: Text.trimEnd back := by
  simp only [Text.trimEnd,List.reverse_append,List.reverse_cons,List.append_assoc,List.dropWhile_append]
  cases stopped : back.reverse.dropWhile Text.isBlank with
  | nil => simp [solid]
  | cons last rest => simp

section Gap

variable {bytes : List UInt8} {node : Node} {first second : Nat} {a b : UInt8}
  (nested : node.Nested) (bounded : node.stop ≤ bytes.length)
  (around : WordsAround bytes node first second a b)
include nested bounded around

theorem white_of_mem_between {byte : UInt8} (inside : byte ∈
    select (fun i => first + 1 ≤ i && i < second && isKept bytes node i) bytes) :
    isWhiteByte byte = true := by
  obtain ⟨i,read,test⟩ := mem_select.mp inside
  simp only [Bool.and_eq_true,decide_eq_true_eq] at test
  obtain ⟨⟨after,before⟩,kept⟩ := test
  have code : node.commented i = false := by
    by_contra commented
    rw [Bool.not_eq_false] at commented
    obtain ⟨comment,member,covered⟩ := List.any_eq_true.mp commented
    have := not_isKept_of_comment nested bounded member covered
    simp [kept] at this
  obtain ⟨other,same,white⟩ := around.between i after before code
  cases Option.some.inj (read.symm.trans same)
  exact white

theorem keptText_between : keptText bytes node (first + 1) second =
    (select (fun i => first + 1 ≤ i && i < second && isKept bytes node i) bytes).map
      fun byte => Char.ofNat byte.toNat :=
  decodeLossy_of_ascii fun _ inside => (white_ascii (white_of_mem_between nested bounded around inside)).1

theorem keptText_between_eq_nil : keptText bytes node (first + 1) second = [] ↔
    ∀ i, first < i → i < second → isKept bytes node i = false := by
  rw [keptText_between nested bounded around,List.map_eq_nil_iff,List.eq_nil_iff_forall_not_mem]
  constructor
  · intro none i after before
    by_contra kept
    have high : second < bytes.length := (List.getElem?_eq_some_iff.mp around.reads.2).1
    refine none bytes[i] (mem_select.mpr ⟨i,List.getElem?_eq_getElem (by omega),?_⟩)
    simpa [before] using ⟨after,by simpa using kept⟩
  · intro gone byte inside
    obtain ⟨i,_,test⟩ := mem_select.mp inside
    simp only [Bool.and_eq_true,decide_eq_true_eq] at test
    exact absurd (test.2.symm.trans (gone i test.1.1 test.1.2)) (by decide)

omit around in
theorem kept_of_word {i : Nat} {byte : UInt8} (read : bytes[i]? = some byte)
    (word : isWordByte byte = true) (code : node.commented i = false) : isKept bytes node i = true := by
  by_contra cut
  obtain ⟨comment,inside,covered | blanks⟩ :=
    comment_of_not_isKept nested bounded (i := i) (by simpa using cut)
  · exact absurd (code.symm.trans (List.any_eq_true.mpr ⟨comment,inside,covered⟩)) (by decide)
  · apply not_blankAt_of_word read word
    rcases blanks with ⟨before,run⟩ | ⟨after,run⟩
    · exact run i (Nat.le_refl _) before
    · exact run i after (Nat.le_refl _)

/-- The text of a node without comments, around the two words. -/
theorem decodeLossy_withoutComments (order : first < second) :
    Utf8.decodeLossy (withoutComments bytes node) = keptText bytes node node.start first ++
      Char.ofNat a.toNat :: (keptText bytes node (first + 1) second ++
        Char.ofNat b.toNat :: keptText bytes node (second + 1) node.stop) := by
  have keptFirst := kept_of_word nested bounded around.reads.1 around.words.1 around.code.1
  have keptSecond := kept_of_word nested bounded around.reads.2 around.words.2 around.code.2
  obtain ⟨insideFirst,insideSecond⟩ := around.inside
  have low : node.start ≤ first := (covers_iff.mp insideFirst).1
  have high : second < node.stop := (covers_iff.mp insideSecond).2
  have covers (i : Nat) : node.span.covers i = (decide (node.start ≤ i) && decide (i < node.stop)) := rfl
  have later : select (fun i => first < i && (node.span.covers i && isKept bytes node i)) bytes =
      select (fun i => first + 1 ≤ i && i < second && isKept bytes node i) bytes ++
        b :: select (fun i => second + 1 ≤ i && i < node.stop && isKept bytes node i) bytes := by
    rw [select_around around.reads.2 (by rw [insideSecond,keptSecond,decide_eq_true order]; rfl)]
    congr 1
    · refine select_congr 0 fun i _ _ => ?_
      rw [covers]
      grind
    · congr 1
      refine select_congr 0 fun i _ _ => ?_
      rw [covers]
      grind
  have earlier : select (fun i => i < first && (node.span.covers i && isKept bytes node i)) bytes =
      select (fun i => node.start ≤ i && i < first && isKept bytes node i) bytes := by
    refine select_congr 0 fun i _ _ => ?_
    rw [covers]
    grind
  rw [withoutComments_eq_select nested bounded,
    select_around around.reads.1 (by rw [insideFirst,keptFirst]; rfl),earlier,later,
    Utf8.decodeLossy_ascii _ _ (word_ascii around.words.1).1,
    Utf8.decodeLossy_ascii _ _ (word_ascii around.words.2).1]
  rfl

end Gap

/-- Printing without comments leaves white space between two words, or nothing: nothing exactly if a
comment touches the second word and only spaces and tabs stand beside the comments. -/
theorem print_removed_between (file : SourceFile) (place : Place) (parsed : file.Parsed)
    (inTree : place.node ∈ file.tree.nodes) (lexed : CommentsLexed file.bytes place.node)
    {first second : Nat} {a b : UInt8} (around : WordsAround file.bytes place.node first second a b) :
    let gap := keptText file.bytes place.node (first + 1) second
    Reader.syntactic.print .removed file place = .ok (String.ofList
      (keptText file.bytes place.node place.node.start first ++ Char.ofNat a.toNat ::
        (gap ++ Char.ofNat b.toNat ::
          Text.trimEnd (keptText file.bytes place.node (second + 1) place.node.stop)))) ∧
    (∀ c ∈ gap, Text.isBlank c = true) ∧
    (gap = [] ↔ (∃ comment ∈ place.node.comments, comment.stop = second) ∧
      ∀ i, first < i → i < second → place.node.commented i = false → IndentAt file.bytes i) := by
  have nested := parsed.nested.of_mem inTree
  have bounded : place.node.stop ≤ file.bytes.length :=
    Nat.le_trans (parsed.nested.within inTree).2 parsed.bounded
  have order : first < second := by
    obtain ⟨i,after,before,_⟩ := around.remark
    exact Nat.lt_trans after before
  intro gap
  refine ⟨?_,?_,?_⟩
  · change Except.ok (file.textWithoutComments place.node) = _
    rw [SourceFile.textWithoutComments,decodeLossy_withoutComments nested bounded around order,
      trimEnd_append_cons (word_ascii around.words.1).2,trimEnd_append_cons (word_ascii around.words.2).2]
  · intro c inside
    rw [show gap = _ from keptText_between nested bounded around] at inside
    obtain ⟨byte,member,rfl⟩ := List.mem_map.mp inside
    exact (white_ascii (white_of_mem_between nested bounded around member)).2
  · exact (keptText_between_eq_nil nested bounded around).trans
      (cut_between_iff nested bounded lexed around)

def joined : List Char := "function /* n */f() \x7b\x7d".toList

def joinedDeclaration : Node :=
  ⟨"function_declaration",true,0,22,[],[⟨"function",false,0,8,[],[]⟩,⟨"comment",true,9,16,[],[]⟩,
    ⟨"identifier",true,16,17,[.name],[]⟩,⟨"formal_parameters",true,17,19,[.parameters],[]⟩,
    ⟨"statement_block",true,20,22,[.body],[]⟩]⟩

def joinedPlace : Place := ⟨joinedDeclaration,[⟨⟨"program",true,0,22,[],[joinedDeclaration]⟩,[]⟩]⟩

def joinedFile : SourceFile :=
  ⟨⟨"a.ts"⟩,Utf8.encode joined,⟨"program",true,0,22,[],[joinedDeclaration]⟩⟩

theorem joined_parsed : joinedFile.Parsed ∧ joinedDeclaration ∈ joinedFile.tree.nodes := by
  refine ⟨⟨⟨?_,?_⟩,by decide⟩,?_⟩
  · simp [joinedFile,joinedDeclaration,Node.nodes_eq]
  · simp [joinedFile,joinedDeclaration,Node.nodes_eq]
  · exact Node.mem_nodes_child (List.mem_singleton.mpr rfl) joinedDeclaration.mem_nodes_self

theorem joined_comments : joinedDeclaration.comments = [⟨"comment",true,9,16,[],[]⟩] := by
  simp [Node.comments,Node.nodes_eq,joinedDeclaration,isComment]

theorem mem_joined_comments {comment : Node} (inside : comment ∈ joinedDeclaration.comments) :
    comment = ⟨"comment",true,9,16,[],[]⟩ := by
  rw [joined_comments] at inside
  exact List.mem_singleton.mp inside

theorem joined_lexed : CommentsLexed joinedFile.bytes joinedDeclaration := by
  constructor
  · intro comment inside
    rw [mem_joined_comments inside]
    decide
  · intro first inside second member before
    rw [mem_joined_comments inside,mem_joined_comments member] at before
    exact absurd before (by decide)
  · rintro comment inside i _ _ ⟨byte,read,blank⟩
    rw [mem_joined_comments inside] at read
    cases read
    exact absurd blank (by decide)

theorem joined_commented (i : Nat) :
    joinedDeclaration.commented i = (decide (9 ≤ i) && decide (i < 16)) := by
  rw [Node.commented,joined_comments,List.any_cons,List.any_nil,Bool.or_false]
  rfl

theorem joined_between {i : Nat} (after : 7 < i) (before : i < 16)
    (code : joinedDeclaration.commented i = false) : i = 8 := by
  rw [joined_commented] at code
  simp at code
  omega

theorem joined_around : WordsAround joinedFile.bytes joinedDeclaration 7 16 0x6E 0x66 := by
  refine ⟨by decide,⟨rfl,rfl⟩,by decide,?_,?_,⟨9,by decide,by decide,by rw [joined_commented]; rfl⟩⟩
  · rw [joined_commented,joined_commented]
    decide
  · intro i after before code
    rw [joined_between after before code]
    exact ⟨0x20,rfl,rfl⟩

theorem joined_touched : (∃ comment ∈ joinedDeclaration.comments, comment.stop = 16) ∧
    ∀ i, 7 < i → i < 16 → joinedDeclaration.commented i = false → IndentAt joinedFile.bytes i := by
  refine ⟨⟨⟨"comment",true,9,16,[],[]⟩,joined_comments ▸ List.mem_singleton.mpr rfl,rfl⟩,?_⟩
  intro i after before code
  rw [joined_between after before code]
  exact ⟨0x20,rfl,rfl⟩

theorem print_removed_between_joined : joinedFile.Parsed ∧ joinedDeclaration ∈ joinedFile.tree.nodes ∧
    CommentsLexed joinedFile.bytes joinedDeclaration ∧
    WordsAround joinedFile.bytes joinedDeclaration 7 16 0x6E 0x66 ∧
    keptText joinedFile.bytes joinedDeclaration 8 16 = [] := by
  obtain ⟨parsed,member⟩ := joined_parsed
  obtain ⟨_,_,gone⟩ := print_removed_between joinedFile joinedPlace parsed member joined_lexed joined_around
  exact ⟨parsed,member,joined_lexed,joined_around,gone.mpr joined_touched⟩

theorem cuts_joined : cuts joinedFile.bytes joinedDeclaration = [⟨8,16⟩] := by
  have comments : (joinedDeclaration.nodes.filter fun part =>
      isComment part && part.span.within joinedDeclaration.span) = [⟨"comment",true,9,16,[],[]⟩] := by
    simp [Node.nodes_eq,joinedDeclaration,isComment,Span.within,Node.span]
  rw [cuts,comments,List.map_singleton,List.mergeSort_singleton]
  decide

theorem print_joined :
    Reader.syntactic.print .removed joinedFile joinedPlace = .ok "functionf() \x7b\x7d" := by
  have rest : withoutComments joinedFile.bytes joinedDeclaration =
      Utf8.encode "functionf() \x7b\x7d".toList := by
    rw [withoutComments,cuts_joined]
    decide
  change Except.ok (joinedFile.textWithoutComments joinedDeclaration) = _
  rw [SourceFile.textWithoutComments,rest,Utf8.decodeLossy_encode]
  decide

/-- A comment need not leave white space where it was: two words can become one. -/
theorem words_joined : Reader.syntactic.print .removed joinedFile joinedPlace =
      .ok "functionf() \x7b\x7d" ∧
    ¬∀ (file : SourceFile) (place : Place), file.Parsed → place.node ∈ file.tree.nodes →
      CommentsLexed file.bytes place.node → ∀ (first second : Nat) (a b : UInt8),
      WordsAround file.bytes place.node first second a b → ∃ front gap back,
        Reader.syntactic.print .removed file place = .ok (String.ofList
          (front ++ Char.ofNat a.toNat :: (gap ++ Char.ofNat b.toNat :: back))) ∧
        front = keptText file.bytes place.node place.node.start first ∧
        gap ≠ [] ∧ ∀ c ∈ gap, Text.isBlank c = true := by
  refine ⟨print_joined,fun separated => ?_⟩
  obtain ⟨parsed,member⟩ := joined_parsed
  obtain ⟨front,gap,back,printed,same,wide,blank⟩ :=
    separated joinedFile joinedPlace parsed member joined_lexed 7 16 0x6E 0x66 joined_around
  have kept : keptText joinedFile.bytes joinedDeclaration 0 7 = "functio".toList := by
    simp only [keptText,isKept,cuts_joined]
    decide
  have text : "functionf() \x7b\x7d".toList =
      "functio".toList ++ 'n' :: (gap ++ 'f' :: back) := by
    rw [Except.ok.inj (print_joined.symm.trans printed),String.toList_ofList,same.trans kept]
    rfl
  have rest : 'n' :: "f() \x7b\x7d".toList = 'n' :: (gap ++ 'f' :: back) :=
    List.append_cancel_left (show "functio".toList ++ _ = "functio".toList ++ _ from text)
  cases gap with
  | nil => exact wide rfl
  | cons c gap =>
    cases (List.cons.inj (List.cons.inj rest).2).1
    exact absurd (blank 'f' List.mem_cons_self) (by decide)

end SourceAtlas.Syntax
