import SourceAtlas.Proofs.YamlLiteral
import SourceAtlas.Proofs.YamlQuoted
import SourceAtlas.Yaml.Token

/-! Scanning written values. A scan goes from one place of a text to a later one; what is written of a
value is scanned to its tokens, whatever line comes next. -/
namespace SourceAtlas.Yaml

open Scanner

/-- A scan gets from one state and place to another, in no more steps than there are spots between. -/
def Scans (scanner : Scanner) (spots : List Spot) (next : Scanner) (rest : List Spot) : Prop :=
  ∃ steps, steps + rest.length ≤ spots.length ∧
    ∀ limit, scanner.scanFrom? (steps + limit) spots = next.scanFrom? limit rest

theorem Scans.trans {first second third : Scanner} {spots middle rest : List Spot}
    (before : Scans first spots second middle) (after : Scans second middle third rest) :
    Scans first spots third rest := by
  obtain ⟨m,fewer,reach⟩ := before
  obtain ⟨n,less,go⟩ := after
  refine ⟨m + n,by omega,fun limit => ?_⟩
  rw [Nat.add_assoc,reach,go]

/-- Blanks and line breaks take no step. -/
theorem Scans.skip {scanner next : Scanner} {spots rest : List Spot}
    (same : ∀ limit, scanner.scanFrom? limit spots = next.scanFrom? limit rest)
    (fewer : rest.length ≤ spots.length) : Scans scanner spots next rest :=
  ⟨0,by omega,fun limit => by rw [Nat.zero_add,same]⟩

theorem Scans.step {scanner next : Scanner} {spot : Spot} {spots others rest : List Spot} {allowed : Bool}
    (skipped : skipBlanks scanner.inFlow scanner.keyAllowed false spots = (allowed,spot :: others))
    (taken : ((scanner.allowKey allowed).closeBlocks (some spot.column)).token? spot others =
      some (next,rest)) (fewer : rest.length < spots.length) : Scans scanner spots next rest := by
  refine ⟨1,by omega,fun limit => ?_⟩
  rw [Nat.add_comm,scanFrom?,skipped]
  simp only [taken]
  rfl

theorem closeBlocks_allowKey (scanner : Scanner) (allowed : Bool) (column : Option Nat) :
    (scanner.allowKey allowed).closeBlocks column = (scanner.closeBlocks column).allowKey allowed := by
  rw [closeBlocks,closeBlocks,show (scanner.allowKey allowed).inFlow = scanner.inFlow from rfl]
  cases scanner.inFlow <;> rfl

theorem dropKey?_allowKey (scanner : Scanner) (allowed : Bool) :
    (scanner.allowKey allowed).dropKey? = scanner.dropKey?.map (·.allowKey allowed) := by
  simp only [dropKey?,allowKey]
  split
  · split <;> rfl
  · rfl

theorem endBlocks?_allowKey (scanner : Scanner) (allowed : Bool) :
    (scanner.allowKey allowed).endBlocks? = scanner.endBlocks? := by
  rw [endBlocks?,endBlocks?,closeBlocks_allowKey,dropKey?_allowKey]
  cases (scanner.closeBlocks none).dropKey? <;> rfl

/-- Leaving a line allows a key. -/
theorem scanFrom?_break {scanner : Scanner} (inBlock : scanner.inFlow = false) {cursor : Cursor}
    {c : Char} (ends : isBreak c = true) (limit : Nat) (rest : List Spot) :
    scanner.scanFrom? limit (cursor.spot c :: rest) = (scanner.allowKey true).scanFrom? limit rest := by
  have isBreak : (cursor.spot c).breaks = true := ends
  have skipped : skipBlanks scanner.inFlow scanner.keyAllowed false (cursor.spot c :: rest) =
      skipBlanks (scanner.allowKey true).inFlow (scanner.allowKey true).keyAllowed false rest := by
    rw [skipBlanks,isBreak,inBlock,show (scanner.allowKey true).inFlow = false from inBlock]
    simp [allowKey]
  unfold scanFrom?
  rw [skipped]
  split
  · rw [endBlocks?_allowKey]
  · rfl

theorem scanFrom?_space (scanner : Scanner) (cursor : Cursor) (limit : Nat) (rest : List Spot) :
    scanner.scanFrom? limit (cursor.spot ' ' :: rest) = scanner.scanFrom? limit rest := by
  have skipped : skipBlanks scanner.inFlow scanner.keyAllowed false (cursor.spot ' ' :: rest) =
      skipBlanks scanner.inFlow scanner.keyAllowed false rest := by
    have noBreak : (cursor.spot ' ').breaks = false := rfl
    rw [skipBlanks,noBreak]
    simp
  unfold scanFrom?
  rw [skipped]

theorem skipBlanks_solid {inFlow allowed : Bool} {cursor : Cursor} {c : Char}
    (solid : isBlank c = false ∧ isBreak c = false) (noComment : c ≠ '#')
    (noMark : c ≠ orderMark) (rest : List Spot) :
    skipBlanks inFlow allowed false (cursor.spot c :: rest) = (allowed,cursor.spot c :: rest) := by
  have noBreak : (cursor.spot c).breaks = false := solid.2
  have unmarked : (cursor.spot c).marksOrder = false := by simp [Spot.marksOrder,noMark]
  obtain ⟨noSpace,noTab⟩ : (c == ' ') = false ∧ (c == '\t') = false := by
    simpa only [isBlank,Bool.or_eq_false_iff] using solid.1
  rw [skipBlanks,noBreak,unmarked,Cursor.spot_char,noSpace,noTab]
  simp [noComment]

-- Values

/-- Within the members of a text: one block collection is open, at the first column, and no possible key
has to be one. -/
structure Scanner.InBlock (scanner : Scanner) : Prop where
  columns : scanner.columns = [0]
  keys : ∃ key, scanner.keys = [key] ∧ ∀ possible, key = some possible → possible.required = false

namespace Scanner.InBlock

variable {scanner : Scanner} (inBlock : scanner.InBlock)
include inBlock

theorem inFlow_eq : scanner.inFlow = false := by
  obtain ⟨key,keys,_⟩ := inBlock.keys
  simp [inFlow,keys]

theorem innerIndent_eq : scanner.innerIndent = 1 := by simp [innerIndent,inBlock.columns]

theorem allowKey (allowed : Bool) : (scanner.allowKey allowed).InBlock :=
  ⟨inBlock.columns,inBlock.keys⟩

theorem emit (token : Token) : (scanner.emit token).InBlock := ⟨inBlock.columns,inBlock.keys⟩

theorem closeBlocks (column : Nat) : scanner.closeBlocks (some column) = scanner := by
  rw [Scanner.closeBlocks,inBlock.inFlow_eq]
  obtain ⟨tokens,keyAllowed,keys,columns⟩ := scanner
  obtain rfl : columns = [0] := inBlock.columns
  simp

theorem dropKey? : ∃ next, scanner.dropKey? = some next ∧ next.InBlock ∧
    next.tokens = scanner.tokens ∧ next.keyAllowed = scanner.keyAllowed := by
  obtain ⟨key,keys,free⟩ := inBlock.keys
  cases key with
  | none => exact ⟨scanner,by rw [Scanner.dropKey?,keys],inBlock,rfl,rfl⟩
  | some possible =>
    refine ⟨{ scanner with keys := [none] },?_,⟨inBlock.columns,none,rfl,fun _ no => nomatch no⟩,rfl,rfl⟩
    simp [Scanner.dropKey?,keys,free possible rfl]

/-- What starts within a line need not be a key. -/
theorem markKey? (spot : Spot) (column : spot.column ≠ 0) : ∃ next, scanner.markKey? spot = some next ∧
    next.InBlock ∧ next.tokens = scanner.tokens ∧ next.keyAllowed = scanner.keyAllowed := by
  cases allowed : scanner.keyAllowed with
  | false => exact ⟨scanner,by simp [Scanner.markKey?,allowed],inBlock,rfl,allowed⟩
  | true =>
    obtain ⟨dropped,drops,still,tokens,same⟩ := inBlock.dropKey?
    obtain ⟨key,keys,_⟩ := still.keys
    refine ⟨{ dropped with keys := [some ⟨false,dropped.tokens.length,spot⟩] },?_,
      ⟨still.columns,_,rfl,fun possible same => by cases same; rfl⟩,tokens,same.trans allowed⟩
    have required : (!dropped.inFlow && dropped.columns.head? == some spot.column) = false := by
      simp [still.columns,Ne.symm column]
    simp only [Scanner.markKey?,allowed,if_true,drops,Option.bind_eq_bind,Option.bind_some,required,keys]
    rfl

end Scanner.InBlock

theorem startsPlain_of_plainText {scanner : Scanner} (inBlock : scanner.inFlow = false) {c : Char}
    {rest : List Char} (plain : PlainText c rest) (cursor : Cursor) (tail : List Char) :
    scanner.startsPlain (cursor.spot c) ((cursor.after c).spots (rest ++ tail)) = true := by
  have white : (cursor.spot c).white = false := by rw [white_spot,plain.solid.1,plain.solid.2]; rfl
  by_cases indicator : c ∈ ['-','?',':']
  · have word := plain.word_of_mem indicator
    have goesOn := endsWord_of_isGapAhead word (cursor.after c) tail
    have head : ((cursor.after c).spots (rest ++ tail)).head?.any Spot.blank = false := by
      cases rest with
      | nil => cases word
      | cons d rest => exact (Bool.or_eq_false_iff.mp word).1
    simp only [List.mem_cons,List.not_mem_nil,or_false] at indicator
    rcases indicator with rfl | rfl | rfl <;> simp [startsPlain,head,goesOn,inBlock]
  · have noIndicator : indicators.contains c = false := by
      rw [← Bool.not_eq_true,List.contains_iff_mem]
      intro inside
      have split : c ∈ ['-','?',':'] ∨ c ∈
          [',','[',']','\x7b','\x7d','#','&','*','!','|','>','\x27','"','%','@','\x60'] :=
        List.mem_append.mp inside
      rcases split with inside | inside
      · exact indicator inside
      · refine plain.ne_of_mem ?_ rfl
        simp only [List.mem_cons,List.not_mem_nil,or_false] at inside ⊢
        tauto
    rw [startsPlain,white,Cursor.spot_char,noIndicator]
    rfl

/-- A scanner goes on with a plain scalar where a text starts that may be one. -/
theorem token?_plain {scanner : Scanner} (inBlock : scanner.inFlow = false) {c : Char} {rest : List Char}
    (plain : PlainText c rest) {cursor : Cursor} (place : cursor.column ≠ 0 ∨ c ≠ '-' ∧ c ≠ '.')
    (tail : List Char) :
    scanner.token? (cursor.spot c) ((cursor.after c).spots (rest ++ tail)) =
      scanner.plain? (cursor.spot c) ((cursor.after c).spots (rest ++ tail)) := by
  have noMark (mark : Char) (known : mark = '-' ∨ mark = '.') (others : List Spot) :
      isMark mark (cursor.spot c :: others) = false := by
    rcases place with column | ⟨dash,dot⟩
    · exact isMark_of_column column _ _ _
    · rcases known with rfl | rfl
      · exact isMark_of_ne dash _ _
      · exact isMark_of_ne dot _ _
  have word (indicator : c ∈ ['-','?',':']) :
      endsWord ((cursor.after c).spots (rest ++ tail)) = false :=
    endsWord_of_isGapAhead (plain.word_of_mem indicator) _ tail
  have notBefore (indicator : Char) (known : indicator ∈ ['-','?',':']) :
      (c == indicator && endsWord ((cursor.after c).spots (rest ++ tail))) = false := by
    by_cases same : c = indicator
    · rw [word (same ▸ known),Bool.and_false]
    · rw [beq_eq_false_iff_ne.mpr same,Bool.false_and]
  have starts := startsPlain_of_plainText inBlock plain cursor tail
  have other {d : Char} (special : d ∈
      ['#',',','[',']','\x7b','\x7d','&','*','!','|','>','\x27','"','%','@','\x60']) :
      (c == d) = false := beq_eq_false_iff_ne.mpr (plain.ne_of_mem special)
  rw [token?]
  simp only [Cursor.spot_char,noMark '-' (.inl rfl),noMark '.' (.inr rfl),notBefore '-' (by decide),
    notBefore '?' (by decide),notBefore ':' (by decide),inBlock,Bool.false_or,starts,singleQuote,
    @other '%' (by decide),@other '[' (by decide),@other '\x7b' (by decide),@other ']' (by decide),
    @other '\x7d' (by decide),@other ',' (by decide),@other '*' (by decide),@other '&' (by decide),
    @other '!' (by decide),@other '|' (by decide),@other '>' (by decide),@other '\x27' (by decide),
    @other '"' (by decide)]
  simp

/-- What is written of a value is scanned to its tokens, whatever line comes next. -/
structure ReadsValue (written : List Char) (tokens : List Token) : Prop where
  nonempty : written ≠ []
  printable : Printable written
  reads : ∀ (scanner : Scanner) (cursor : Cursor) (tail : List Char), scanner.InBlock →
    cursor.column ≠ 0 → LineAhead tail → ∃ next : Scanner, next.InBlock ∧ next.keyAllowed = true ∧
      next.tokens = tokens.reverse ++ scanner.tokens ∧
      Scans scanner (cursor.spots (endLine written ++ tail)) next
        ((cursor.past (endLine written)).spots tail)

theorem endLine_eq {written : List Char} (inLine : written.getLast?.any isBreak = false) :
    endLine written = written ++ ['\n'] := by
  rw [endLine,if_neg (by simp [inLine])]

theorem Scanner.InBlock.scans_token {scanner next : Scanner} (inBlock : scanner.InBlock)
    {cursor : Cursor} {c : Char} {rest back : List Spot} (solid : isBlank c = false ∧ isBreak c = false)
    (noComment : c ≠ '#') (noMark : c ≠ orderMark)
    (taken : scanner.token? (cursor.spot c) rest = some (next,back)) (fewer : back.length ≤ rest.length) :
    Scans scanner (cursor.spot c :: rest) next back := by
  apply Scans.step (skipBlanks_solid solid noComment noMark rest)
  · rw [show scanner.allowKey scanner.keyAllowed = scanner from rfl,inBlock.closeBlocks]
    exact taken
  · exact Nat.lt_succ_of_le fewer

/-- The line break after a value, where a key may start again. -/
theorem Scanner.InBlock.scans_line {scanner : Scanner} (inBlock : scanner.InBlock) (cursor : Cursor)
    (tail : List Char) : Scans scanner (cursor.spots ('\n' :: tail)) (scanner.allowKey true)
      ((cursor.past ['\n']).spots tail) :=
  .skip (fun limit => scanFrom?_break inBlock.inFlow_eq rfl limit _) (by simp [Cursor.length_spots])

theorem PlainText.endLine_eq {c : Char} {rest : List Char} (plain : PlainText c rest) :
    endLine (c :: rest) = c :: rest ++ ['\n'] := by
  apply Yaml.endLine_eq
  cases last : (c :: rest).getLast? with
  | none => rfl
  | some d => exact plain.inLine d (List.mem_of_getLast? last)

theorem PlainText.noMark {c : Char} {rest : List Char} (plain : PlainText c rest) : c ≠ orderMark :=
  ne_of_isPrintable (plain.printable c List.mem_cons_self) (by decide)

theorem readsValue_plain {c : Char} {rest : List Char} (plain : PlainText c rest) :
    ReadsValue (c :: rest) [.scalar .plain (String.ofList (c :: rest))] := by
  refine ⟨List.cons_ne_nil _ _,plain.printable,fun scanner cursor tail inBlock column ahead => ?_⟩
  obtain ⟨marked,marks,still,tokens,_⟩ := inBlock.markKey? (cursor.spot c) column
  refine ⟨(marked.allowKey true).emit (.scalar .plain (String.ofList (c :: rest))),
    (still.allowKey true).emit _,rfl,?_,?_⟩
  · rw [← tokens]
    rfl
  · have reads := plain.plainFrom_line cursor (Nat.le_add_left 1 _) (Nat.zero_lt_one) ahead
    rw [plain.endLine_eq,List.append_assoc,List.singleton_append,List.cons_append,Cursor.spots_cons]
    rw [List.cons_append,Cursor.spots_cons] at reads
    refine inBlock.scans_token plain.solid (plain.ne_of_mem (by simp)) plain.noMark ?_ ?_
    · rw [token?_plain inBlock.inFlow_eq plain (.inl column)]
      simp only [plain?,marks,Option.bind_eq_bind,Option.bind_some,still.inFlow_eq,still.innerIndent_eq,
        reads]
      rfl
    · simp only [Cursor.length_spots,List.length_append,List.length_cons]
      omega

theorem token?_single {scanner : Scanner} (inBlock : scanner.inFlow = false) (cursor : Cursor)
    (rest : List Spot) : scanner.token? (cursor.spot '\x27') rest =
      scanner.quoted? (cursor.spot '\x27') (singleFrom [] .none false rest) := by
  have noMark (mark : Char) (other : '\x27' ≠ mark) := isMark_of_ne other cursor rest
  rw [token?,noMark '-' (by decide),noMark '.' (by decide),Cursor.spot_char,inBlock]
  simp [singleQuote]

theorem token?_double {scanner : Scanner} (inBlock : scanner.inFlow = false) (cursor : Cursor)
    (rest : List Spot) : scanner.token? (cursor.spot '"') rest =
      scanner.quoted? (cursor.spot '"') (doubleFrom [] .none .none rest) := by
  have noMark (mark : Char) (other : '"' ≠ mark) := isMark_of_ne other cursor rest
  rw [token?,noMark '-' (by decide),noMark '.' (by decide),Cursor.spot_char,inBlock]
  simp [singleQuote]

theorem token?_literal {scanner : Scanner} (inBlock : scanner.inFlow = false) (cursor : Cursor)
    (rest : List Spot) : scanner.token? (cursor.spot '|') rest = scanner.block? .literal rest := by
  have noMark (mark : Char) (other : '|' ≠ mark) := isMark_of_ne other cursor rest
  rw [token?,noMark '-' (by decide),noMark '.' (by decide),Cursor.spot_char,inBlock]
  simp

/-- A quoted value is read if its inside is, up to the end of the line. -/
theorem readsValue_quoted {quote : Char} {body text : List Char} {read : List Spot → Option Scanned}
    (solid : isBlank quote = false ∧ isBreak quote = false) (noComment : quote ≠ '#')
    (noMark : quote ≠ orderMark) (printable : Printable (quote :: body))
    (inLine : (quote :: body).getLast?.any isBreak = false)
    (quoted : ∀ (scanner : Scanner) (cursor : Cursor) (rest : List Spot), scanner.inFlow = false →
      scanner.token? (cursor.spot quote) rest = scanner.quoted? (cursor.spot quote) (read rest))
    (reads : ∀ (cursor : Cursor) (tail : List Char),
      read ((cursor.after quote).spots (body ++ '\n' :: tail)) =
        some ⟨text,false,(cursor.past (quote :: body)).spots ('\n' :: tail)⟩) :
    ReadsValue (quote :: body) [.scalar .quoted (String.ofList text)] := by
  refine ⟨List.cons_ne_nil _ _,printable,fun scanner cursor tail inBlock column _ => ?_⟩
  obtain ⟨marked,marks,still,tokens,_⟩ := inBlock.markKey? (cursor.spot quote) column
  have next := (still.allowKey false).emit (.scalar .quoted (String.ofList text))
  refine ⟨((marked.allowKey false).emit (.scalar .quoted (String.ofList text))).allowKey true,
    next.allowKey true,rfl,?_,?_⟩
  · rw [← tokens]
    rfl
  · rw [endLine_eq inLine,List.append_assoc,List.singleton_append,List.cons_append,Cursor.spots_cons,
      Cursor.past_append]
    refine .trans ?_ (next.scans_line _ tail)
    refine inBlock.scans_token solid noComment noMark ?_ ?_
    · rw [quoted _ _ _ inBlock.inFlow_eq,quoted?,keyPart?,reads]
      simp only [marks,Option.bind_eq_bind,Option.bind_some,Option.map_some]
      rfl
    · simp only [Cursor.length_spots,List.length_append,List.length_cons]
      omega

theorem readsValue_single {text : List Char} (single : mayBeSingle text = true) (noLine : '\n' ∉ text) :
    ReadsValue (writeSingle text) [.scalar .quoted (String.ofList text)] := by
  have printable : Printable text := by
    simp only [mayBeSingle,Bool.and_eq_true,Bool.not_eq_true',needsDouble_eq_false] at single
    exact single.1.1
  rw [writeSingle_eq]
  refine readsValue_quoted ⟨rfl,rfl⟩ (by decide) (by decide) (printable_writeSingle printable) ?_
    (fun scanner cursor rest inBlock => token?_single inBlock cursor rest) fun cursor tail => ?_
  · rw [List.getLast?_cons,List.getLast?_append]
    rfl
  · rw [List.append_assoc]
    exact singleFrom_writeSingle single noLine (show some '\n' ≠ some '\x27' by decide)

theorem readsValue_double (text : List Char) :
    ReadsValue (writeDouble text) [.scalar .quoted (String.ofList text)] := by
  rw [writeDouble_eq]
  refine readsValue_quoted ⟨rfl,rfl⟩ (by decide) (by decide) (printable_writeDouble text) ?_
    (fun scanner cursor rest inBlock => token?_double inBlock cursor rest) fun cursor tail => ?_
  · rw [List.getLast?_cons,List.getLast?_append]
    rfl
  · rw [List.append_assoc]
    exact doubleFrom_writeDouble text _ cursor

theorem readsValue_literal {text : List Char} (literal : mayBeLiteral text = true) (line : '\n' ∈ text) :
    ReadsValue (writeLiteral text) [.scalar .literal (String.ofList text)] := by
  have printable : Printable text := by
    simp only [mayBeLiteral,Bool.and_eq_true,Bool.not_eq_true',needsDouble_eq_false] at literal
    exact literal.1.1
  refine ⟨List.cons_ne_nil _ _,printable_writeLiteral printable,
    fun scanner cursor tail inBlock column ahead => ?_⟩
  obtain ⟨dropped,drops,still,tokens,_⟩ := inBlock.dropKey?
  obtain ⟨body,written,reads⟩ := readBlock_writeLiteral cursor literal line ahead
  refine ⟨(dropped.allowKey true).emit (.scalar .literal (String.ofList text)),
    (still.allowKey true).emit _,rfl,?_,?_⟩
  · rw [← tokens]
    rfl
  · rw [written] at reads ⊢
    rw [List.cons_append,Cursor.spots_cons]
    refine inBlock.scans_token ⟨rfl,rfl⟩ (by decide) (by decide) ?_ ?_
    · rw [token?_literal inBlock.inFlow_eq,block?,drops]
      simp only [Option.bind_eq_bind,Option.bind_some,still.innerIndent_eq,still.columns]
      rw [show readBlock (Style.literal == .folded) 1 ([0].head?.getD 0) _ = _ from reads]
      rfl
    · simp only [Cursor.length_spots,List.length_append]
      omega

theorem token?_brackets {scanner : Scanner} (cursor : Cursor) (rest : List Spot) :
    scanner.token? (cursor.spot '[') rest = scanner.openFlow? (cursor.spot '[') .openSequence rest ∧
      scanner.token? (cursor.spot ']') rest = scanner.closeFlow? .closeSequence rest := by
  have opening (mark : Char) (other : '[' ≠ mark) := isMark_of_ne other cursor rest
  have closing (mark : Char) (other : ']' ≠ mark) := isMark_of_ne other cursor rest
  constructor
  · rw [token?,opening '-' (by decide),opening '.' (by decide),Cursor.spot_char]
    simp
  · rw [token?,closing '-' (by decide),closing '.' (by decide),Cursor.spot_char]
    simp

theorem readsValue_brackets : ReadsValue ['[',']'] [.openSequence,.closeSequence] := by
  refine ⟨List.cons_ne_nil _ _,by decide,fun scanner cursor tail inBlock column _ => ?_⟩
  obtain ⟨marked,marks,still,tokens,_⟩ := inBlock.markKey? (cursor.spot '[') column
  obtain ⟨key,keys,free⟩ := still.keys
  -- The scanner within the brackets, and the one after them.
  let inside : Scanner := ⟨.openSequence :: marked.tokens,true,[none,key],[0]⟩
  let closed : Scanner := ⟨.closeSequence :: .openSequence :: marked.tokens,false,[key],[0]⟩
  have outside : closed.InBlock := ⟨rfl,key,rfl,free⟩
  refine ⟨closed.allowKey true,outside.allowKey true,rfl,?_,?_⟩
  · rw [← tokens]
    rfl
  · have opens : Scans scanner (cursor.spots ('[' :: ']' :: '\n' :: tail)) inside
        ((cursor.after '[').spots (']' :: '\n' :: tail)) := by
      refine inBlock.scans_token ⟨rfl,rfl⟩ (by decide) (by decide) ?_ (Nat.le_refl _)
      rw [(token?_brackets cursor _).1,openFlow?,marks]
      simp only [Option.bind_eq_bind,Option.bind_some,keys,still.columns]
      rfl
    have closes : Scans inside ((cursor.after '[').spots (']' :: '\n' :: tail)) closed
        (((cursor.after '[').after ']').spots ('\n' :: tail)) := by
      refine Scans.step (skipBlanks_solid ⟨rfl,rfl⟩ (by decide) (by decide) _) ?_ (Nat.lt_succ_self _)
      rw [show (inside.allowKey inside.keyAllowed).closeBlocks _ = inside from rfl,
        (token?_brackets _ _).2]
      rfl
    exact (opens.trans closes).trans (outside.scans_line _ tail)

-- Texts

def styleOf (text : String) : Style :=
  let chars := text.toList
  if chars.contains '\n' then if mayBeLiteral chars then .literal else .quoted
  else if !isAmbiguous text && mayBePlain chars then .plain
  else .quoted

theorem unambiguous {text : String} (clear : isAmbiguous text = false) :
    text ≠ "" ∧ isNull text = false := by
  simp only [isAmbiguous,Bool.or_eq_false_iff,decide_eq_false_iff_not] at clear
  exact ⟨clear.1.1.1.1.1,clear.1.1.1.1.2⟩

theorem readsValue_writeText (text : String) :
    ReadsValue (writeText text) [.scalar (styleOf text) text] := by
  have same : String.ofList text.toList = text := String.ofList_toList
  unfold writeText styleOf
  dsimp only
  split
  · next line =>
    split
    · next literal =>
      have reads := readsValue_literal literal (List.contains_iff_mem.mp line)
      rwa [same] at reads
    · have reads := readsValue_double text.toList
      rwa [same] at reads
  · next noLine =>
    split
    · next plain =>
      rw [Bool.and_eq_true,Bool.not_eq_true'] at plain
      cases shape : text.toList with
      | nil => exact absurd (String.toList_eq_nil_iff.mp shape) (unambiguous plain.1).1
      | cons c rest =>
        rw [shape] at plain same
        have reads := readsValue_plain (plainText_of_mayBePlain plain.2)
        rwa [same] at reads
    · split
      · next single =>
        have reads := readsValue_single single fun line => noLine (List.contains_iff_mem.mpr line)
        rwa [same] at reads
      · have reads := readsValue_double text.toList
        rwa [same] at reads

end SourceAtlas.Yaml
