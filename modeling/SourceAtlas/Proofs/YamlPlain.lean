import SourceAtlas.Proofs.YamlText

/-! Reading plain scalars back. A reader holds a text in two parts, the characters before a gap and the
gap; each character of a written text adds to one of them. -/
namespace SourceAtlas.Yaml

/-- What comes next is a line that starts without blanks, or nothing. -/
def LineAhead (tail : List Char) : Prop := ∀ c ∈ tail.head?, isBlank c = false ∧ isBreak c = false

theorem white_spot (cursor : Cursor) (c : Char) : (cursor.spot c).white = (isBlank c || isBreak c) := rfl

theorem isMark_of_column {cursor : Cursor} (inLine : cursor.column ≠ 0) (mark c : Char)
    (rest : List Spot) : isMark mark (cursor.spot c :: rest) = false := by
  unfold isMark
  split
  · next shape =>
    cases shape
    simp [Cursor.spot,inLine]
  · rfl

theorem isMark_of_ne {mark c : Char} (other : c ≠ mark) (cursor : Cursor) (rest : List Spot) :
    isMark mark (cursor.spot c :: rest) = false := by
  unfold isMark
  split
  · next shape =>
    cases shape
    simp [Cursor.spot,other]
  · rfl

theorem isDocumentMark_of_column {cursor : Cursor} (inLine : cursor.column ≠ 0) (c : Char)
    (rest : List Spot) : isDocumentMark (cursor.spot c :: rest) = false := by
  simp only [isDocumentMark,isMark_of_column inLine,Bool.or_self]

theorem isDocumentMark_of_ne {c : Char} (dash : c ≠ '-') (dot : c ≠ '.') (cursor : Cursor)
    (rest : List Spot) : isDocumentMark (cursor.spot c :: rest) = false := by
  simp only [isDocumentMark,isMark_of_ne dash,isMark_of_ne dot,Bool.or_self]

theorem endsWord_of_isGapAhead {rest : List Char} (solid : isGapAhead rest = false) (cursor : Cursor)
    (tail : List Char) : endsWord (cursor.spots (rest ++ tail)) = false := by
  cases rest with
  | nil => cases solid
  | cons c rest => exact solid

-- Gaps

/-- A reader holds a text as the characters `before` a gap, latest first, and the gap. Blanks are at the
end of the text; a broken gap holds line breaks that stand for themselves. -/
structure Holds (before : List Char) (gap : Gap) (text : List Char) : Prop where
  whole : gap.appendTo before = text.reverse
  spaced : gap.blanks ≠ [] → text.getLast? = some ' '
  broken : gap.broken = true → text.getLast?.any isBreak = true ∧ ∃ c, gap.first = some c ∧ c ≠ '\n'

namespace Holds

variable {before : List Char} {gap : Gap} {text : List Char}

theorem start : Holds [] .none [] := ⟨rfl,fun blank => absurd rfl blank,fun broken => nomatch broken⟩

theorem char (holds : Holds before gap text) (c : Char) :
    Holds (c :: gap.appendTo before) .none (text ++ [c]) := by
  refine ⟨?_,fun blank => absurd rfl blank,fun broken => nomatch broken⟩
  rw [List.reverse_append,← holds.whole]
  rfl

theorem space (holds : Holds before gap text) (inLine : gap.broken = false) :
    Holds before (gap.add ' ') (text ++ [' ']) ∧ (gap.add ' ').broken = false := by
  have add : gap.add ' ' = { gap with blanks := ' ' :: gap.blanks } := by simp [Gap.add,inLine,isBreak]
  rw [add]
  refine ⟨⟨?_,fun _ => by simp,fun broken => ?_⟩,inLine⟩
  · have whole := holds.whole
    simp only [Gap.appendTo,Gap.text,inLine,Bool.false_eq_true,if_false,List.reverse_reverse] at whole ⊢
    rw [List.cons_append,whole,List.reverse_append]
    rfl
  · exact absurd (inLine.symm.trans broken) (by decide)

theorem lineBreak (holds : Holds before gap text) {c : Char} (ends : isBreak c = true) (own : c ≠ '\n')
    (unspaced : text.getLast? ≠ some ' ') :
    Holds before (gap.add c) (text ++ [c]) ∧ (gap.add c).broken = true := by
  have noBlanks : gap.blanks = [] := by
    by_contra blank
    exact unspaced (holds.spaced blank)
  have whole := holds.whole
  cases inLine : gap.broken with
  | false =>
    have add : gap.add c = ⟨[],true,some c,[]⟩ := by simp [Gap.add,ends,inLine]
    rw [add]
    refine ⟨⟨?_,fun blank => absurd rfl blank,fun _ => ⟨by simpa using ends,c,rfl,own⟩⟩,rfl⟩
    simp only [Gap.appendTo,Gap.text,inLine,noBlanks,Bool.false_eq_true,if_false,List.reverse_nil,
      List.nil_append] at whole
    simp [Gap.appendTo,Gap.text,whole]
  | true =>
    obtain ⟨_,first,isFirst,notLine⟩ := holds.broken inLine
    have add : gap.add c = { gap with further := c :: gap.further } := by simp [Gap.add,ends,inLine]
    rw [add]
    refine ⟨⟨?_,fun blank => absurd noBlanks blank,fun _ => ⟨by simpa using ends,first,isFirst,notLine⟩⟩,inLine⟩
    simp only [Gap.appendTo,Gap.text,inLine,isFirst,if_true] at whole ⊢
    rw [List.reverse_append,← whole]
    simp

/-- Nothing is added to a text that ends at a gap without blanks. -/
theorem before_eq (holds : Holds before gap text) (inLine : gap.broken = false)
    (unspaced : text.getLast? ≠ some ' ') : before.reverse = text ∧ gap.isEmpty = true := by
  have noBlanks : gap.blanks = [] := by
    by_contra blank
    exact unspaced (holds.spaced blank)
  have whole := holds.whole
  simp only [Gap.appendTo,Gap.text,inLine,noBlanks,Bool.false_eq_true,if_false,List.reverse_nil,
    List.nil_append] at whole
  exact ⟨by rw [whole,List.reverse_reverse],by simp [Gap.isEmpty,noBlanks,inLine]⟩

end Holds

-- Plain scalars

theorem needsDouble_eq_false {text : List Char} :
    needsDouble text = false ↔ Printable text ∧ hasSpaceBeforeBreak text = false := by
  simp only [needsDouble,Bool.or_eq_false_iff,Bool.not_eq_false',List.all_eq_true,Printable]

/-- What a text has to be to be written plain, for the reader: it is in one line without blanks at its
ends, and neither its start nor any place in it is special. -/
structure PlainText (c : Char) (rest : List Char) : Prop where
  printable : Printable (c :: rest)
  inLine : ∀ d ∈ c :: rest, isBreak d = false
  head : c ≠ ' '
  last : (c :: rest).getLast? ≠ some ' '
  start : startsSpecial (c :: rest) = false
  inner : hasInnerIndicator c rest = false

theorem plainText_of_mayBePlain {c : Char} {rest : List Char} (plain : mayBePlain (c :: rest) = true) :
    PlainText c rest := by
  simp only [mayBePlain,Bool.and_eq_true,Bool.not_eq_true',needsDouble_eq_false,List.any_eq_false] at plain
  obtain ⟨⟨⟨⟨⟨⟨printable,_⟩,inLine⟩,head⟩,last⟩,start⟩,inner⟩ := plain
  refine ⟨printable,fun d inside => by simpa using inLine d inside,?_,?_,start,inner⟩
  · rintro rfl
    simp [isSpaceOrBreak] at head
  · intro spaced
    rw [spaced] at last
    simp [isSpaceOrBreak] at last

theorem plainFrom_space {indent : Nat} {before : List Char} {gap : Gap} (cursor : Cursor)
    (rest : List Spot) : plainFrom false indent before gap (cursor.spot ' ' :: rest) =
      plainFrom false indent before (gap.add ' ') rest := by
  have white : (cursor.spot ' ').white = true := rfl
  simp only [plainFrom,white,if_true]
  rfl

/-- A character in a line that is no blank and starts no comment goes on with a plain scalar. -/
theorem plainFrom_char {indent : Nat} {before : List Char} {gap : Gap} {cursor : Cursor} {c : Char}
    {rest : List Spot} (solid : isBlank c = false ∧ isBreak c = false)
    (word : gap.isEmpty = true ∨ cursor.column ≠ 0 ∧ indent ≤ cursor.column ∧ c ≠ '#')
    (colon : c = ':' → endsWord rest = false) :
    plainFrom false indent before gap (cursor.spot c :: rest) =
      plainFrom false indent (c :: gap.appendTo before) .none rest := by
  have white : (cursor.spot c).white = false := by rw [white_spot,solid.1,solid.2]; rfl
  have goesOn : (!gap.isEmpty && endsBeforeWord false indent (cursor.spot c :: rest)) = false := by
    rcases word with empty | ⟨column,inside,noComment⟩
    · rw [empty]
      rfl
    · have started : (cursor.spot c :: rest).head?.any (fun spot => decide (spot.column < indent)) =
          false := decide_eq_false (Nat.not_lt.mpr inside)
      have noMark : startsWith ['#'] (cursor.spot c :: rest) = false := by
        simpa [startsWith] using noComment
      rw [endsBeforeWord,isDocumentMark_of_column column,noMark,started,Bool.and_false,Bool.or_self,
        Bool.or_self,Bool.and_false]
  have inside : endsPlain false (cursor.spot c) rest = false := by
    by_cases isColon : c = ':'
    · simp [endsPlain,colon isColon]
    · simp [endsPlain,Cursor.spot,isColon]
  rw [plainFrom,white,goesOn,inside]
  rfl

theorem plainFrom_body {indent : Nat} {text : List Char} {cursor : Cursor} {before read : List Char}
    {gap : Gap} {previous : Char} (printable : Printable text) (inLine : ∀ c ∈ text, isBreak c = false)
    (inner : hasInnerIndicator previous text = false) (holds : Holds before gap read)
    (unbroken : gap.broken = false) (last : read.getLast? = some previous)
    (column : cursor.column ≠ 0) (inside : indent ≤ cursor.column) (tail : List Char) :
    ∃ before' gap', Holds before' gap' (read ++ text) ∧ gap'.broken = false ∧
      plainFrom false indent before gap (cursor.spots (text ++ tail)) =
        plainFrom false indent before' gap' ((cursor.past text).spots tail) := by
  induction text generalizing cursor before read gap previous with
  | nil => exact ⟨before,gap,by simpa using holds,unbroken,rfl⟩
  | cons c rest ih =>
    obtain ⟨here,later⟩ := List.forall_mem_cons.mp printable
    obtain ⟨unended,rests⟩ := List.forall_mem_cons.mp inLine
    simp only [hasInnerIndicator,Bool.or_eq_false_iff] at inner
    obtain ⟨⟨colon,comment⟩,inner⟩ := inner
    have moved : (cursor.after c).column = cursor.column + 1 := Cursor.column_after unended
    rw [List.cons_append,Cursor.spots_cons,Cursor.past_cons,List.append_cons]
    rcases Bool.eq_false_or_eq_true (isBlank c) with blank | solid
    · obtain rfl := eq_space_of_isBlank here blank
      obtain ⟨next,stays⟩ := holds.space unbroken
      rw [plainFrom_space]
      exact ih later rests inner next stays (by simp) (by omega) (by omega)
    · have word : gap.isEmpty = true ∨ cursor.column ≠ 0 ∧ indent ≤ cursor.column ∧ c ≠ '#' := by
        by_cases empty : gap.isEmpty = true
        · exact .inl empty
        · refine .inr ⟨column,inside,?_⟩
          rintro rfl
          have spaced : gap.blanks ≠ [] := by
            rintro none
            simp [Gap.isEmpty,none,unbroken] at empty
          cases last.symm.trans (holds.spaced spaced)
          exact absurd comment (by decide)
      rw [plainFrom_char ⟨solid,unended⟩ word fun isColon => ?_]
      · exact ih later rests inner (holds.char c) rfl (by simp) (by omega) (by omega)
      · refine endsWord_of_isGapAhead ?_ _ tail
        simpa [isColon] using colon

namespace PlainText

variable {c : Char} {rest : List Char} (plain : PlainText c rest)
include plain

theorem solid : isBlank c = false ∧ isBreak c = false := by
  obtain ⟨here,_⟩ := List.forall_mem_cons.mp plain.printable
  refine ⟨?_,plain.inLine c List.mem_cons_self⟩
  by_contra blank
  exact plain.head (eq_space_of_isBlank here (by simpa using blank))

theorem ne_of_mem {other : Char} (special : other ∈
    ['#',',','[',']','\x7b','\x7d','&','*','!','|','>','\x27','"','%','@','\x60']) : c ≠ other := by
  rintro rfl
  have start := plain.start
  unfold startsSpecial at start
  split at start
  · cases start
  · cases start
  · next shape =>
    cases shape
    simp only [Bool.or_eq_false_iff] at start
    exact absurd (start.1.symm.trans (List.contains_iff_mem.mpr special)) (by decide)
  · next shape => cases shape

/-- A dash, a question mark or a colon at the start has a word after it. -/
theorem word_of_mem (indicator : c ∈ ['-','?',':']) : isGapAhead rest = false := by
  have start := plain.start
  unfold startsSpecial at start
  split at start
  · cases start
  · cases start
  · next shape =>
    cases shape
    simp only [Bool.or_eq_false_iff,List.contains_iff_mem.mpr indicator,Bool.true_and] at start
    exact start.2
  · next shape => cases shape

/-- A plain scalar is read to its last character, whatever comes next. -/
theorem plainFrom {indent : Nat} {cursor : Cursor} (inside : indent ≤ cursor.column + 1)
    (tail : List Char) : ∃ before gap, before.reverse = c :: rest ∧ gap.isEmpty = true ∧
      gap.broken = false ∧ Yaml.plainFrom false indent [] .none (cursor.spots (c :: rest ++ tail)) =
        Yaml.plainFrom false indent before gap ((cursor.past (c :: rest)).spots tail) := by
  obtain ⟨_,printable⟩ := List.forall_mem_cons.mp plain.printable
  obtain ⟨unended,inLine⟩ := List.forall_mem_cons.mp plain.inLine
  have moved : (cursor.after c).column = cursor.column + 1 := Cursor.column_after unended
  obtain ⟨before,gap,holds,unbroken,reads⟩ := plainFrom_body printable inLine plain.inner
    (Holds.start.char c) rfl rfl (show (cursor.after c).column ≠ 0 by omega)
    (show indent ≤ (cursor.after c).column by omega) tail
  obtain ⟨whole,empty⟩ := holds.before_eq unbroken plain.last
  refine ⟨before,gap,whole,empty,unbroken,?_⟩
  rw [List.cons_append,Cursor.spots_cons,Cursor.past_cons,← reads,
    plainFrom_char plain.solid (.inl rfl) fun isColon => ?_]
  exact endsWord_of_isGapAhead (plain.word_of_mem (by simp [isColon])) _ tail

/-- A colon before a gap ends a plain scalar. -/
theorem plainFrom_colon {indent : Nat} {cursor : Cursor} (inside : indent ≤ cursor.column + 1)
    {d : Char} (gapAhead : isBlank d = true ∨ isBreak d = true) (tail : List Char) :
    Yaml.plainFrom false indent [] .none (cursor.spots (c :: rest ++ ':' :: d :: tail)) =
      some ⟨c :: rest,false,(cursor.past (c :: rest)).spots (':' :: d :: tail)⟩ := by
  obtain ⟨before,gap,whole,empty,unbroken,reads⟩ := plain.plainFrom inside (':' :: d :: tail)
  have white : (((cursor.past (c :: rest)).after ':').spot d).white = true := by
    rw [white_spot]
    rcases gapAhead with blank | ends
    · rw [blank]
      rfl
    · rw [ends,Bool.or_true]
  rw [reads,Cursor.spots_cons,Cursor.spots_cons,Yaml.plainFrom]
  simp [white_spot,isBlank,isBreak,empty,isAmbiguousColon,endsPlain,endsWord,white,whole,unbroken]

/-- A line break before a line without indentation ends a plain scalar. -/
theorem plainFrom_line {indent : Nat} (cursor : Cursor) (inside : indent ≤ cursor.column + 1)
    (positive : 0 < indent) {tail : List Char} (ahead : LineAhead tail) :
    Yaml.plainFrom false indent [] .none (cursor.spots (c :: rest ++ '\n' :: tail)) =
      some ⟨c :: rest,true,(cursor.past (c :: rest ++ ['\n'])).spots tail⟩ := by
  obtain ⟨before,gap,whole,empty,unbroken,reads⟩ := plain.plainFrom inside ('\n' :: tail)
  have broken : (gap.add '\n').broken = true := by simp [Gap.add,isBreak,unbroken]
  have column : ((cursor.past (c :: rest)).after '\n').column = 0 := Cursor.column_after_break rfl
  have past : cursor.past (c :: rest ++ ['\n']) = (cursor.past (c :: rest)).after '\n' :=
    Cursor.past_append _ _ _
  rw [reads,past,Cursor.spots_cons]
  have ended : Yaml.plainFrom false indent before gap
      ((cursor.past (c :: rest)).spot '\n' :: ((cursor.past (c :: rest)).after '\n').spots tail) =
      Yaml.plainFrom false indent before (gap.add '\n')
        (((cursor.past (c :: rest)).after '\n').spots tail) := by
    rw [Yaml.plainFrom]
    simp [white_spot,isBlank,isBreak]
  rw [ended]
  cases tail with
  | nil => simp [Cursor.spots,Yaml.plainFrom,whole,broken]
  | cons d tail =>
    obtain ⟨unblank,unended⟩ := ahead d rfl
    have white : (((cursor.past (c :: rest)).after '\n').spot d).white = false := by
      rw [white_spot,unblank,unended]
      rfl
    have gapped : (gap.add '\n').isEmpty = false := by simp [Gap.isEmpty,broken]
    have early (spots : List Spot) : endsBeforeWord false indent
        (((cursor.past (c :: rest)).after '\n').spot d :: spots) = true := by
      have outside : decide ((((cursor.past (c :: rest)).after '\n').spot d).column < indent) = true :=
        decide_eq_true (by rw [Cursor.spot_column,column]; exact positive)
      simp only [endsBeforeWord,List.head?_cons,Option.any_some,outside,Bool.not_false,Bool.and_self,
        Bool.or_true]
    rw [Cursor.spots_cons,Yaml.plainFrom,white,gapped,early]
    simp [whole,broken]

end PlainText

end SourceAtlas.Yaml
