import SourceAtlas.Proofs.YamlPlain

/-! Reading literal blocks back. A draft holds what is read of a block; empty lines wait as breaks until
a line follows, and the chomping says what becomes of the breaks at the end. -/
namespace SourceAtlas.Yaml

/-- A draft holds a text. Within a line no breaks wait; between lines the text ends in a break, if there
is any text. -/
structure Drafted (draft : BlockDraft) (inLine : Bool) (text : List Char) : Prop where
  whole : draft.breaks ++ draft.lineEnd.toList ++ draft.before = text.reverse
  breaks : ∀ c ∈ draft.breaks ++ draft.lineEnd.toList, isBreak c = true
  indent : draft.indent = some 2 ∨ draft.indent = none ∧ draft.widest = 0 ∧ text = []
  opened : inLine = true → draft.breaks = [] ∧ draft.lineEnd = none ∧ text.getLast?.any isBreak = false
  closed : inLine = false → draft.lineEnd = none → draft.before = []

namespace Drafted

variable {draft : BlockDraft} {text : List Char}

theorem indent_eq {inLine : Bool} (drafted : Drafted draft inLine text) (nonempty : text ≠ []) :
    draft.indent = some 2 := by
  rcases drafted.indent with known | ⟨_,_,none⟩
  · exact known
  · exact absurd none nonempty

theorem char (drafted : Drafted draft true text) (nonempty : text ≠ []) {c : Char}
    (unended : isBreak c = false) : Drafted { draft with before := c :: draft.before } true (text ++ [c]) := by
  obtain ⟨noBreaks,noEnd,_⟩ := drafted.opened rfl
  refine ⟨?_,drafted.breaks,.inl (drafted.indent_eq nonempty),
    fun _ => ⟨noBreaks,noEnd,by simpa using unended⟩,fun other => (nomatch other)⟩
  have whole := drafted.whole
  simp only [noBreaks,noEnd,Option.toList_none,List.nil_append] at whole ⊢
  rw [whole,List.reverse_append]
  rfl

theorem endLine (drafted : Drafted draft true text) (nonempty : text ≠ []) {c : Char}
    (ends : isBreak c = true) : Drafted { draft with lineEnd := some c } false (text ++ [c]) := by
  obtain ⟨noBreaks,noEnd,_⟩ := drafted.opened rfl
  have whole := drafted.whole
  simp only [noBreaks,noEnd,Option.toList_none,List.nil_append] at whole
  refine ⟨?_,?_,.inl (drafted.indent_eq nonempty),fun other => (nomatch other),
    fun _ none => (nomatch none)⟩
  · simp only [noBreaks,List.nil_append,Option.toList_some,whole,List.reverse_append]
    rfl
  · simpa [noBreaks] using ends

theorem emptyLine (drafted : Drafted draft false text) (known : draft.indent = some 2) {c : Char}
    (ends : isBreak c = true) (widest : Nat) :
    Drafted { draft with breaks := c :: draft.breaks, widest } false (text ++ [c]) := by
  refine ⟨?_,?_,.inl known,fun other => (nomatch other),fun _ none => drafted.closed rfl none⟩
  · rw [List.reverse_append,← drafted.whole]
    rfl
  · exact List.forall_mem_cons.mpr ⟨ends,drafted.breaks⟩

theorem startLine (drafted : Drafted draft false text) {c : Char} (unended : isBreak c = false) :
    Drafted (draft.startLine false 2 c) true (text ++ [c]) := by
  refine ⟨?_,fun d inside => (nomatch inside),.inl rfl,fun _ => ⟨rfl,rfl,by simpa using unended⟩,
    fun other => (nomatch other)⟩
  change c :: (draft.breaks ++ draft.lineEnd.toList ++ draft.before) = _
  rw [drafted.whole,List.reverse_append]
  rfl

end Drafted

-- Steps

theorem blockFrom_char {chomping : Chomping} {parent : Nat} {draft : BlockDraft} {cursor : Cursor}
    {c : Char} (unended : isBreak c = false) (rest : List Spot) :
    blockFrom false chomping parent true draft (cursor.spot c :: rest) =
      blockFrom false chomping parent true { draft with before := c :: draft.before } rest := by
  have noBreak : (cursor.spot c).breaks = false := unended
  rw [blockFrom,noBreak]
  rfl

theorem blockFrom_endLine {chomping : Chomping} {parent : Nat} {draft : BlockDraft} {cursor : Cursor}
    {c : Char} (ends : isBreak c = true) (rest : List Spot) :
    blockFrom false chomping parent true draft (cursor.spot c :: rest) =
      blockFrom false chomping parent false { draft with lineEnd := some c } rest := by
  have isBreak : (cursor.spot c).breaks = true := ends
  rw [blockFrom,isBreak]
  rfl

theorem blockFrom_emptyLine {chomping : Chomping} {parent : Nat} {draft : BlockDraft} {cursor : Cursor}
    {c : Char} (ends : isBreak c = true) (rest : List Spot) :
    blockFrom false chomping parent false draft (cursor.spot c :: rest) =
      blockFrom false chomping parent false
        { draft with breaks := c :: draft.breaks, widest := max draft.widest cursor.column } rest := by
  have isBreak : (cursor.spot c).breaks = true := ends
  have noSpace : (c == ' ') = false := by
    rw [beq_eq_false_iff_ne]
    rintro rfl
    cases ends
  have noTab : (c == '\t') = false := by
    rw [beq_eq_false_iff_ne]
    rintro rfl
    cases ends
  simp only [blockFrom,isBreak,Cursor.spot_char,noSpace,noTab]
  rfl

theorem blockFrom_indentation {chomping : Chomping} {parent : Nat} {draft : BlockDraft}
    {cursor : Cursor} (known : draft.indent = some 2 ∨ draft.indent = none) (column : cursor.column = 0)
    (rest : List Char) : blockFrom false chomping parent false draft (cursor.spots (indentation ++ rest)) =
      blockFrom false chomping parent false draft ((cursor.past indentation).spots rest) := by
  have first : draft.indents (cursor.spot ' ') = true := by
    unfold BlockDraft.indents
    rcases known with known | known <;> simp [known,column]
  have second : draft.indents ((cursor.after ' ').spot ' ') = true := by
    unfold BlockDraft.indents
    rcases known with known | known <;> simp [known,column,Cursor.column_after (c := ' ') rfl]
  rw [Cursor.spots_append]
  change blockFrom false chomping parent false draft
    (cursor.spot ' ' :: (cursor.after ' ').spot ' ' :: _) = _
  simp only [blockFrom,first,second,Cursor.spot_char]
  rfl

/-- The first character of a line, which is a space only if the indentation is known. -/
theorem blockFrom_startLine {chomping : Chomping} {draft : BlockDraft} {cursor : Cursor} {c : Char}
    (printable : isPrintable c = true) (unended : isBreak c = false) (column : cursor.column = 2)
    (known : draft.indent = some 2 ∨ draft.indent = none ∧ draft.widest = 0 ∧ c ≠ ' ')
    (rest : List Spot) : blockFrom false chomping 1 false draft (cursor.spot c :: rest) =
      blockFrom false chomping 1 true (draft.startLine false 2 c) rest := by
  have noBreak : (cursor.spot c).breaks = false := unended
  have noTab : (c == '\t') = false := beq_eq_false_iff_ne.mpr (ne_of_isPrintable printable (by decide))
  have noIndent : (c == ' ' && draft.indents (cursor.spot c)) = false := by
    rcases known with known | ⟨_,_,solid⟩
    · simp [BlockDraft.indents,known,column]
    · simp [solid]
  have indent : draft.indent.getD (max (max draft.widest 2) (max 1 1)) = 2 := by
    rcases known with known | ⟨known,narrow,_⟩
    · rw [known]
      rfl
    · rw [known,narrow]
      rfl
  simp only [blockFrom,noBreak,Cursor.spot_char,Cursor.spot_column,noIndent,noTab,indent,column]
  rfl

/-- A line that starts without blanks before its indentation ends a block. -/
theorem blockFrom_lineAhead {chomping : Chomping} {draft : BlockDraft} {cursor : Cursor}
    {tail : List Char} (known : draft.indent = some 2) (column : cursor.column = 0)
    (ahead : LineAhead tail) : blockFrom false chomping 1 false draft (cursor.spots tail) =
      some ⟨draft.finish chomping,true,cursor.spots tail⟩ := by
  cases tail with
  | nil => rfl
  | cons c tail =>
    obtain ⟨unblank,unended⟩ := ahead c rfl
    have noBreak : (cursor.spot c).breaks = false := unended
    simp only [isBlank,Bool.or_eq_false_iff] at unblank
    rw [Cursor.spots_cons]
    simp only [blockFrom,noBreak,Cursor.spot_char,Cursor.spot_column,unblank.1,unblank.2,known,column]
    rfl

-- Texts

/-- What is written of one character in a literal block, at the start of a line or within it. -/
def literalPart (atStart : Bool) (c : Char) : List Char :=
  if isBreak c then [c] else (if atStart then indentation else []) ++ [c]

theorem literalBody_cons (atStart : Bool) (c : Char) (rest : List Char) :
    literalBody atStart (c :: rest) = literalPart atStart c ++ literalBody (isBreak c) rest := by
  rw [literalBody,literalPart]
  cases isBreak c with
  | true => rfl
  | false => exact List.append_cons _ _ _

theorem blockFrom_break {chomping : Chomping} {cursor : Cursor} {draft : BlockDraft} {inLine : Bool}
    {read : List Char} {c : Char} (ends : isBreak c = true) (drafted : Drafted draft inLine read)
    (nonempty : inLine = true → read ≠ []) (known : draft.indent = some 2) :
    ∃ draft', Drafted draft' false (read ++ [c]) ∧ draft'.indent = some 2 ∧ ∀ rest : List Spot,
      blockFrom false chomping 1 inLine draft (cursor.spot c :: rest) =
        blockFrom false chomping 1 false draft' rest := by
  cases inLine with
  | true => exact ⟨_,drafted.endLine (nonempty rfl) ends,known,blockFrom_endLine ends⟩
  | false => exact ⟨_,drafted.emptyLine known ends _,known,blockFrom_emptyLine ends⟩

theorem blockFrom_solid {chomping : Chomping} {cursor : Cursor} {draft : BlockDraft} {inLine : Bool}
    {read : List Char} {c : Char} (printable : isPrintable c = true) (unended : isBreak c = false)
    (drafted : Drafted draft inLine read) (nonempty : inLine = true → read ≠ [])
    (head : draft.indent = none → c ≠ ' ') (column : inLine = false → cursor.column = 0) :
    ∃ draft', Drafted draft' true (read ++ [c]) ∧ draft'.indent = some 2 ∧ ∀ rest : List Char,
      blockFrom false chomping 1 inLine draft (cursor.spots (literalPart (!inLine) c ++ rest)) =
        blockFrom false chomping 1 true draft' ((cursor.past (literalPart (!inLine) c)).spots rest) := by
  cases inLine with
  | true =>
    have part : literalPart (!true) c = [c] := if_neg (by simp [unended])
    rw [part]
    exact ⟨_,drafted.char (nonempty rfl) unended,drafted.indent_eq (nonempty rfl),
      fun rest => blockFrom_char unended _⟩
  | false =>
    have part : literalPart (!false) c = indentation ++ [c] := if_neg (by simp [unended])
    have indented : (cursor.past indentation).column = 2 := by
      rw [Cursor.column_past indentation_inLine,column rfl]
      rfl
    have known : draft.indent = some 2 ∨ draft.indent = none ∧ draft.widest = 0 ∧ c ≠ ' ' := by
      rcases drafted.indent with known | ⟨unknown,narrow,_⟩
      · exact .inl known
      · exact .inr ⟨unknown,narrow,head unknown⟩
    refine ⟨_,drafted.startLine unended,rfl,fun rest => ?_⟩
    rw [part,List.append_assoc,blockFrom_indentation (known.imp_right And.left) (column rfl),
      List.singleton_append,Cursor.spots_cons,blockFrom_startLine printable unended indented known,
      Cursor.past_append]
    rfl

/-- Reading the lines that are written of a text gives a draft of it. By induction on the text, within a
line or at the start of one. -/
theorem blockFrom_body {chomping : Chomping} {text tail : List Char} {cursor : Cursor} {draft : BlockDraft}
    {inLine : Bool} {read : List Char} (printable : Printable text)
    (drafted : Drafted draft inLine read) (nonempty : inLine = true → read ≠ [])
    (head : draft.indent = none → ¬text.head?.any isSpaceOrBreak)
    (column : inLine = false → cursor.column = 0) :
    ∃ draft' inLine', Drafted draft' inLine' (read ++ text) ∧
      (inLine' = false → (cursor.past (literalBody (!inLine) text)).column = 0) ∧
      blockFrom false chomping 1 inLine draft (cursor.spots (literalBody (!inLine) text ++ tail)) =
        blockFrom false chomping 1 inLine' draft'
          ((cursor.past (literalBody (!inLine) text)).spots tail) := by
  induction text generalizing cursor draft inLine read with
  | nil => exact ⟨draft,inLine,by rwa [List.append_nil],column,rfl⟩
  | cons c rest ih =>
    obtain ⟨here,later⟩ := List.forall_mem_cons.mp printable
    have unread {draft : BlockDraft} (known : draft.indent = some 2) :
        draft.indent = none → ¬rest.head?.any isSpaceOrBreak := by simp [known]
    rw [literalBody_cons,List.append_assoc,Cursor.past_append,List.append_cons read]
    cases ends : isBreak c with
    | true =>
      have known : draft.indent = some 2 := by
        rcases drafted.indent with known | ⟨unknown,_⟩
        · exact known
        · exact absurd (by simp [isSpaceOrBreak,ends]) (head unknown)
      have part : literalPart (!inLine) c = [c] := if_pos ends
      obtain ⟨next,still,indent,reads⟩ := blockFrom_break ends drafted nonempty known
      rw [part,List.singleton_append,Cursor.spots_cons,reads]
      exact ih later still (fun other => absurd other (by decide)) (unread indent)
        fun _ => Cursor.column_after_break ends
    | false =>
      have solid : draft.indent = none → c ≠ ' ' := by
        rintro unknown rfl
        exact head unknown rfl
      obtain ⟨next,still,indent,reads⟩ := blockFrom_solid here ends drafted nonempty solid column
      rw [reads]
      exact ih later still (fun _ => by simp) (unread indent) fun other => absurd other (by decide)

def chompingOf (text : List Char) : Chomping :=
  match text.reverse with
  | [] => .strip
  | last :: before =>
    if !isBreak last then .strip
    else if before.head?.all isBreak then .keep
    else .clip

def Chomping.sign : Chomping → List Char
  | .strip => ['-']
  | .keep => ['+']
  | .clip => []

theorem chompingSign_eq (text : List Char) : chompingSign text = (chompingOf text).sign := by
  unfold chompingSign chompingOf
  cases text.reverse with
  | nil => rfl
  | cons last before =>
    dsimp only
    split
    · rfl
    · split <;> rfl

theorem readHeader_sign (wide : Bool) (chomping : Chomping) (cursor : Cursor) (rest : List Char) :
    readHeader (cursor.spots ((if wide then ['2'] else []) ++ chomping.sign ++ '\n' :: rest)) =
      (⟨chomping,if wide then some 2 else none⟩,
        (cursor.past ((if wide then ['2'] else []) ++ chomping.sign)).spots ('\n' :: rest)) := by
  cases wide <;> cases chomping <;> rfl

/-- Stripping leaves out the line break that ends the last line. -/
theorem Drafted.finish_strip {draft : BlockDraft} {text : List Char} (drafted : Drafted draft true text)
    (lineEnd : Option Char) : BlockDraft.finish { draft with lineEnd } .strip = text := by
  obtain ⟨noBreaks,noEnd,_⟩ := drafted.opened rfl
  have whole := drafted.whole
  simp only [noBreaks,noEnd,Option.toList_none,List.nil_append] at whole
  simp only [BlockDraft.finish,whole,List.reverse_reverse]

/-- Between lines, the chomping of a text keeps all of its breaks. -/
theorem Drafted.finish_chompingOf {draft : BlockDraft} {text : List Char}
    (drafted : Drafted draft false text) (ends : text.getLast?.any isBreak = true) :
    draft.finish (chompingOf text) = text := by
  have whole := drafted.whole
  cases last : text.getLast? with
  | none => simp [last] at ends
  | some c =>
    obtain ⟨front,rfl⟩ := List.getLast?_eq_some_iff.mp last
    rw [last] at ends
    have isBreak : isBreak c = true := ends
    rw [List.reverse_append,List.reverse_singleton,List.singleton_append] at whole
    rw [chompingOf,List.reverse_append,List.reverse_singleton,List.singleton_append]
    dsimp only
    rw [if_neg (by simp [isBreak])]
    split
    · rw [BlockDraft.finish]
      rw [whole,List.reverse_cons,List.reverse_reverse]
    · next solid =>
      have noBreaks : draft.breaks = [] := by
        by_contra waiting
        obtain ⟨b,bs,shape⟩ := List.exists_cons_of_ne_nil waiting
        have breaks := drafted.breaks
        rw [shape] at breaks whole
        have rest : bs ++ draft.lineEnd.toList ++ draft.before = front.reverse :=
          (List.cons.inj whole).2
        cases closing : bs ++ draft.lineEnd.toList with
        | nil =>
          have noEnd : draft.lineEnd = none := by
            simpa using (List.append_eq_nil_iff.mp closing).2
          rw [closing,drafted.closed rfl noEnd] at rest
          rw [← rest] at solid
          exact solid rfl
        | cons d more =>
          have inside : d ∈ bs ++ draft.lineEnd.toList := by
            rw [closing]
            exact List.mem_cons_self
          have second := breaks d (List.mem_cons_of_mem _ inside)
          rw [closing] at rest
          rw [← rest] at solid
          exact solid second
      cases known : draft.lineEnd with
      | none =>
        rw [noBreaks,known,drafted.closed rfl known] at whole
        cases whole
      | some d =>
        rw [noBreaks,known,List.nil_append] at whole
        rw [BlockDraft.finish]
        rw [known,whole,List.reverse_cons,List.reverse_reverse]

theorem getLast?_literalBody {text : List Char} (nonempty : text ≠ []) (atStart : Bool) :
    (literalBody atStart text).getLast? = text.getLast? := by
  induction text generalizing atStart with
  | nil => exact absurd rfl nonempty
  | cons c rest ih =>
    rw [literalBody]
    split
    · cases rest with
      | nil => rfl
      | cons d rest =>
        rw [List.getLast?_cons,List.getLast?_cons,ih (List.cons_ne_nil d rest)]
    · rw [List.getLast?_append]
      cases rest with
      | nil => rfl
      | cons d rest =>
        rw [List.getLast?_cons,List.getLast?_cons,ih (List.cons_ne_nil d rest)]
        simp

def literalHeader (text : List Char) : List Char :=
  (if text.head?.any isSpaceOrBreak then ['2'] else []) ++ (chompingOf text).sign

theorem writeLiteral_eq (text : List Char) :
    writeLiteral text = '|' :: (literalHeader text ++ '\n' :: literalBody true text) := by
  rw [writeLiteral,chompingSign_eq,List.append_assoc,literalHeader,List.append_assoc]
  rfl

theorem printable_literalBody {text : List Char} (printable : Printable text) (atStart : Bool) :
    Printable (literalBody atStart text) := by
  induction text generalizing atStart with
  | nil => exact List.forall_mem_nil _
  | cons c rest ih =>
    obtain ⟨here,later⟩ := List.forall_mem_cons.mp printable
    unfold literalBody
    split
    · exact List.forall_mem_cons.mpr ⟨here,ih later true⟩
    · exact List.forall_mem_append.mpr
        ⟨printable_indentation atStart,List.forall_mem_cons.mpr ⟨here,ih later false⟩⟩

theorem printable_writeLiteral {text : List Char} (printable : Printable text) :
    Printable (writeLiteral text) := by
  have header : Printable (literalHeader text) := by
    unfold literalHeader
    cases chompingOf text <;> split <;> decide
  rw [writeLiteral_eq]
  exact List.forall_mem_cons.mpr ⟨rfl,List.forall_mem_append.mpr
    ⟨header,List.forall_mem_cons.mpr ⟨rfl,printable_literalBody printable true⟩⟩⟩

theorem getLast?_writeLiteral {text : List Char} (nonempty : text ≠ []) :
    (writeLiteral text).getLast? = text.getLast? := by
  obtain ⟨c,last⟩ : ∃ c, text.getLast? = some c := ⟨_,List.getLast?_eq_some_getLast nonempty⟩
  have body := (getLast?_literalBody nonempty true).trans last
  rw [writeLiteral_eq,← List.cons_append,List.getLast?_append,List.getLast?_cons,body,last]
  rfl

theorem Drafted.start (wide : Bool) :
    Drafted ⟨[],none,[],false,if wide then some 2 else none,0⟩ false [] := by
  refine ⟨rfl,fun c inside => (nomatch inside),?_,fun other => (nomatch other),fun _ _ => rfl⟩
  cases wide with
  | true => exact .inl rfl
  | false => exact .inr ⟨rfl,rfl,rfl⟩

theorem Drafted.ends {draft : BlockDraft} {text : List Char} (drafted : Drafted draft false text)
    (nonempty : text ≠ []) : text.getLast?.any isBreak = true := by
  have whole := drafted.whole
  rw [← List.head?_reverse,← whole]
  cases closing : draft.breaks ++ draft.lineEnd.toList with
  | nil =>
    have noEnd : draft.lineEnd = none := by simpa using (List.append_eq_nil_iff.mp closing).2
    rw [closing,drafted.closed rfl noEnd] at whole
    exact absurd (List.reverse_eq_nil_iff.mp whole.symm) nonempty
  | cons c rest =>
    have breaks := drafted.breaks
    rw [closing] at breaks
    exact breaks c List.mem_cons_self

theorem chompingOf_of_getLast? {text : List Char} (inLine : text.getLast?.any isBreak = false) :
    chompingOf text = .strip := by
  rw [← List.head?_reverse] at inLine
  unfold chompingOf
  cases shape : text.reverse with
  | nil => rfl
  | cons last before =>
    rw [shape] at inLine
    have solid : isBreak last = false := inLine
    dsimp only
    rw [if_pos (by simp [solid])]

theorem readBlock_literalHeader (text rest : List Char) (cursor : Cursor) :
    readBlock false 1 0 (cursor.spots (literalHeader text ++ '\n' :: rest)) =
      blockFrom false (chompingOf text) 1 false
        ⟨[],none,[],false,if text.head?.any isSpaceOrBreak then some 2 else none,0⟩
        ((cursor.past (literalHeader text ++ ['\n'])).spots rest) := by
  rw [readBlock,literalHeader,readHeader_sign,Cursor.past_append _ _ ['\n']]
  cases text.head?.any isSpaceOrBreak <;> rfl

/-- A literal block, after its first sign: what is written of a text up to the end of its last line. -/
theorem readBlock_writeLiteral {text tail : List Char} (cursor : Cursor)
    (literal : mayBeLiteral text = true) (line : '\n' ∈ text) (ahead : LineAhead tail) :
    ∃ body, endLine (writeLiteral text) = '|' :: body ∧
      readBlock false 1 0 ((cursor.after '|').spots (body ++ tail)) =
        some ⟨text,true,(cursor.past (endLine (writeLiteral text))).spots tail⟩ := by
  have nonempty : text ≠ [] := List.ne_nil_of_mem line
  simp only [mayBeLiteral,Bool.and_eq_true,Bool.not_eq_true',needsDouble_eq_false] at literal
  obtain ⟨⟨printable,_⟩,_⟩ := literal
  have column : ((cursor.after '|').past (literalHeader text ++ ['\n'])).column = 0 :=
    Cursor.column_past_of_getLast? (by simp [isBreak])
  have unwide : (if text.head?.any isSpaceOrBreak then some 2 else none) = none →
      ¬text.head?.any isSpaceOrBreak := by
    intro unknown wide
    rw [if_pos wide] at unknown
    cases unknown
  have past : cursor.past (writeLiteral text) =
      ((cursor.after '|').past (literalHeader text ++ ['\n'])).past (literalBody true text) := by
    rw [writeLiteral_eq,Cursor.past_cons,List.append_cons,Cursor.past_append]
  have reading (back : List Char) : ∃ draft inLine, Drafted draft inLine text ∧
      (inLine = false → (cursor.past (writeLiteral text)).column = 0) ∧
      readBlock false 1 0 ((cursor.after '|').spots
          (literalHeader text ++ '\n' :: (literalBody true text ++ back))) =
        blockFrom false (chompingOf text) 1 inLine draft
          ((cursor.past (writeLiteral text)).spots back) := by
    rw [readBlock_literalHeader,past]
    exact blockFrom_body printable (Drafted.start (text.head?.any isSpaceOrBreak))
      (fun other => absurd other (by decide)) unwide (fun _ => column)
  cases ends : text.getLast?.any isBreak with
  | true =>
    have written : endLine (writeLiteral text) = writeLiteral text := by
      rw [endLine,getLast?_writeLiteral nonempty,if_pos ends]
    refine ⟨_,written.trans (writeLiteral_eq text),?_⟩
    obtain ⟨draft,inLine,drafted,closed,reads⟩ := reading tail
    cases inLine with
    | true => exact absurd (ends.symm.trans (drafted.opened rfl).2.2) (by decide)
    | false =>
      rw [List.append_assoc,List.cons_append,reads,written,
        blockFrom_lineAhead (drafted.indent_eq nonempty) (closed rfl) ahead,drafted.finish_chompingOf ends]
  | false =>
    have written : endLine (writeLiteral text) = writeLiteral text ++ ['\n'] := by
      rw [endLine,getLast?_writeLiteral nonempty,if_neg (by simp [ends])]
    refine ⟨literalHeader text ++ '\n' :: (literalBody true text ++ ['\n']),?_,?_⟩
    · rw [written,writeLiteral_eq]
      simp
    · obtain ⟨draft,inLine,drafted,_,reads⟩ := reading ('\n' :: tail)
      cases inLine with
      | false => exact absurd (ends.symm.trans (drafted.ends nonempty)) (by decide)
      | true =>
        have indent : ({ draft with lineEnd := some '\n' } : BlockDraft).indent = some 2 :=
          show draft.indent = some 2 from drafted.indent_eq nonempty
        have ended : ((cursor.past (writeLiteral text)).after '\n').column = 0 :=
          Cursor.column_after_break (by decide)
        rw [List.append_assoc,List.cons_append,List.append_assoc,List.singleton_append,reads,written,
          Cursor.spots_cons,blockFrom_endLine (by decide),blockFrom_lineAhead indent ended ahead,
          chompingOf_of_getLast? ends,drafted.finish_strip,Cursor.past_append]
        rfl

end SourceAtlas.Yaml
