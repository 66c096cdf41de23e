import SourceAtlas.Proofs.YamlValue

/-! Scanning written members. A name with its colon is scanned to a key, and what is written of members
and of lists line by line to their tokens. -/
namespace SourceAtlas.Yaml

open Scanner

/-- A name of a member: a short plain text that starts with no dash or point. -/
structure MemberName (name : String) : Prop where
  plain : ∃ c rest, name.toList = c :: rest ∧ PlainText c rest ∧ c ≠ '-' ∧ c ≠ '.'
  short : name.toList.length ≤ 256

def mayBeName (name : String) : Bool :=
  match name.toList with
  | [] => false
  | c :: rest => mayBePlain (c :: rest) && c != '-' && c != '.' && rest.length < 256

theorem memberName_of_mayBeName {name : String} (check : mayBeName name = true) : MemberName name := by
  unfold mayBeName at check
  cases shape : name.toList with
  | nil => simp [shape] at check
  | cons c rest =>
    simp only [shape,Bool.and_eq_true,bne_iff_ne,decide_eq_true_eq] at check
    obtain ⟨⟨⟨plain,noDash⟩,noDot⟩,short⟩ := check
    refine ⟨⟨c,rest,shape,plainText_of_mayBePlain plain,noDash,noDot⟩,?_⟩
    rw [shape]
    exact short

theorem MemberName.printable {name : String} (isName : MemberName name) :
    Printable (name.toList ++ [':']) := by
  obtain ⟨c,rest,shape,plain,_⟩ := isName.plain
  rw [shape]
  exact List.forall_mem_append.mpr ⟨plain.printable,show Printable [':'] by decide⟩

theorem token?_colon {scanner : Scanner} {cursor : Cursor} {rest : List Spot}
    (word : endsWord rest = true) :
    scanner.token? (cursor.spot ':') rest = scanner.value? (cursor.spot ':') rest := by
  have noMark (mark : Char) (other : ':' ≠ mark) := isMark_of_ne other cursor rest
  rw [token?,noMark '-' (by decide),noMark '.' (by decide),Cursor.spot_char,word]
  simp

/-- The tokens of a name, with the start of the members if none is open. -/
def nameTokens (columns : List Nat) (name : String) : List Token :=
  (if columns = [] then [.mappingStart] else []) ++ [.key,.scalar .plain name,.value]

theorem closeBlocks_of_columns {scanner : Scanner} (columns : scanner.columns = [] ∨ scanner.columns = [0])
    (column : Nat) : scanner.closeBlocks (some column) = scanner := by
  obtain ⟨tokens,keyAllowed,keys,open'⟩ := scanner
  unfold closeBlocks
  split
  · rfl
  · rcases columns with rfl | rfl <;> simp

/-- After a name that may turn out to be a key. -/
def Scanner.named (scanner : Scanner) (name : String) (start : Spot) : Scanner where
  tokens := .scalar .plain name :: scanner.tokens
  keyAllowed := false
  keys := [some ⟨scanner.columns.head? == some start.column,scanner.tokens.length,start⟩]
  columns := scanner.columns

/-- After a name with its colon. -/
def Scanner.valued (scanner : Scanner) (name : String) : Scanner where
  tokens := (nameTokens scanner.columns name).reverse ++ scanner.tokens
  keyAllowed := false
  keys := [none]
  columns := [0]

theorem Scanner.valued_inBlock (scanner : Scanner) (name : String) : (scanner.valued name).InBlock :=
  ⟨rfl,none,rfl,fun _ no => (nomatch no)⟩

/-- A member may start here, the first one or a later one. -/
structure Scanner.AwaitsMember (scanner : Scanner) : Prop where
  columns : scanner.columns = [] ∨ scanner.columns = [0]
  keys : ∃ key, scanner.keys = [key] ∧ ∀ possible, key = some possible → possible.required = false
  allowed : scanner.keyAllowed = true

theorem Scanner.InBlock.awaitsMember {scanner : Scanner} (inBlock : scanner.InBlock)
    (allowed : scanner.keyAllowed = true) : scanner.AwaitsMember :=
  ⟨.inr inBlock.columns,inBlock.keys,allowed⟩

theorem Scanner.AwaitsMember.markKey? {scanner : Scanner} (awaits : scanner.AwaitsMember) (spot : Spot) :
    scanner.markKey? spot = some { scanner with
      keys := [some ⟨scanner.columns.head? == some spot.column,scanner.tokens.length,spot⟩] } := by
  obtain ⟨tokens,keyAllowed,keys,columns⟩ := scanner
  obtain rfl : keyAllowed = true := awaits.allowed
  obtain ⟨key,shape,free⟩ := awaits.keys
  obtain rfl : keys = [key] := shape
  cases key with
  | none => rfl
  | some possible =>
    simp only [Scanner.markKey?,dropKey?,free possible rfl]
    rfl

/-- A colon after a possible key on its line makes it a key, and opens the members if none is open. -/
theorem value?_named {scanner : Scanner} (columns : scanner.columns = [] ∨ scanner.columns = [0])
    (name : String) {start spot : Spot} (column : start.column = 0) (line : start.line = spot.line)
    (near : spot.index ≤ start.index + keyLimit) (rest : List Spot) :
    (scanner.named name start).value? spot rest = some (scanner.valued name,rest) := by
  obtain ⟨tokens,keyAllowed,keys,opened⟩ := scanner
  have key : ((Scanner.mk tokens keyAllowed keys opened).named name start).keyFor? spot =
      some (some ⟨opened.head? == some start.column,tokens.length,start⟩) := by
    simp [named,keyFor?,line,near]
  have count : 1 + (tokens.length + 1) - tokens.length = 2 := by omega
  rw [value?,key]
  rcases columns with rfl | rfl
  · simp [named,valued,nameTokens,insertAt,openBlock,inFlow,column,count]
  · simp [named,valued,nameTokens,insertAt,openBlock,inFlow,column]

theorem nameTokens_open (name : String) :
    nameTokens [0] name = [.key,.scalar .plain name,.value] := rfl

theorem scans_plainName {scanner : Scanner} (awaits : scanner.AwaitsMember) {c : Char} {rest : List Char}
    (plain : PlainText c rest) (noDash : c ≠ '-') (noDot : c ≠ '.') (cursor : Cursor)
    {d : Char} (gapAhead : isBlank d = true ∨ isBreak d = true) (tail : List Char) :
    Scans scanner (cursor.spots (c :: rest ++ ':' :: d :: tail))
      (scanner.named (String.ofList (c :: rest)) (cursor.spot c))
      ((cursor.past (c :: rest)).spots (':' :: d :: tail)) := by
  have inFlow : scanner.inFlow = false := by
    obtain ⟨key,keys,_⟩ := awaits.keys
    simp [Scanner.inFlow,keys]
  have indent : scanner.innerIndent ≤ cursor.column + 1 := by
    rcases awaits.columns with none | one
    · simp [innerIndent,none]
    · simp [innerIndent,one]
  have reads := plain.plainFrom_colon indent gapAhead tail
  rw [List.cons_append,Cursor.spots_cons] at reads ⊢
  refine Scans.step (skipBlanks_solid plain.solid (plain.ne_of_mem (by simp)) plain.noMark _) ?_ ?_
  · rw [show scanner.allowKey scanner.keyAllowed = scanner from rfl,closeBlocks_of_columns awaits.columns,
      token?_plain inFlow plain (.inr ⟨noDash,noDot⟩),plain?]
    refine Option.bind_eq_some_iff.mpr ⟨_,awaits.markKey? _,?_⟩
    exact Option.bind_eq_some_iff.mpr ⟨_,reads,rfl⟩
  · simp only [Cursor.length_spots,List.length_append,List.length_cons]
    omega

theorem scans_colon {scanner : Scanner} (columns : scanner.columns = [] ∨ scanner.columns = [0])
    (name : String) (start : Spot) {cursor : Cursor} (column : start.column = 0)
    (line : start.line = cursor.line) (near : cursor.index ≤ start.index + keyLimit) {d : Char}
    (gapAhead : isBlank d = true ∨ isBreak d = true) (tail : List Char) :
    Scans (scanner.named name start) (cursor.spots (':' :: d :: tail)) (scanner.valued name)
      ((cursor.past [':']).spots (d :: tail)) := by
  have word : endsWord ((cursor.after ':').spots (d :: tail)) = true := by
    rw [Cursor.spots_cons,endsWord,white_spot]
    rcases gapAhead with blank | ends
    · rw [blank]
      rfl
    · rw [ends,Bool.or_true]
  have opened : (scanner.named name start).columns = [] ∨ (scanner.named name start).columns = [0] :=
    columns
  refine Scans.step (skipBlanks_solid ⟨rfl,rfl⟩ (by decide) (by decide) _) ?_ (Nat.lt_succ_self _)
  rw [closeBlocks_allowKey,closeBlocks_of_columns opened]
  change (scanner.named name start).token? (cursor.spot ':') _ = _
  rw [token?_colon word]
  exact value?_named columns name column line near _

theorem scans_name {name : String} (isName : MemberName name) {scanner : Scanner}
    (awaits : scanner.AwaitsMember) {cursor : Cursor} (column : cursor.column = 0) {d : Char}
    (gapAhead : isBlank d = true ∨ isBreak d = true) (tail : List Char) :
    Scans scanner (cursor.spots (name.toList ++ ':' :: d :: tail)) (scanner.valued name)
      ((cursor.past (name.toList ++ [':'])).spots (d :: tail)) := by
  obtain ⟨c,rest,shape,plain,noDash,noDot⟩ := isName.plain
  have short := isName.short
  have same : String.ofList (c :: rest) = name := by rw [← shape,String.ofList_toList]
  have first := scans_plainName awaits plain noDash noDot cursor gapAhead tail
  rw [shape] at short ⊢
  have near := cursor.index_past_le (c :: rest)
  have second := scans_colon awaits.columns name (cursor.spot c) column
    (Cursor.line_past plain.inLine).symm
    (show (cursor.past (c :: rest)).index ≤ cursor.index + 1024 by omega) gapAhead tail
  rw [same] at first
  rw [Cursor.past_append]
  exact first.trans second

theorem endLine_append (before : List Char) {written : List Char} (nonempty : written ≠ []) :
    endLine (before ++ written) = before ++ endLine written := by
  have last : (before ++ written).getLast? = written.getLast? := List.getLast?_append_of_ne_nil _ nonempty
  rw [endLine,endLine,last]
  split
  · rfl
  · rw [List.append_assoc]

theorem printable_endLine {written : List Char} (printable : Printable written) :
    Printable (endLine written) := by
  unfold endLine
  split
  · exact printable
  · exact List.forall_mem_append.mpr ⟨printable,show Printable ['\n'] by decide⟩

theorem printable_writeMember {name : String} (isName : MemberName name) {written : List Char}
    (printable : Printable written) : Printable (writeMember name written) := by
  rw [writeMember,← List.singleton_append,← List.append_assoc]
  exact printable_endLine (List.forall_mem_append.mpr
    ⟨isName.printable,List.forall_mem_cons.mpr ⟨rfl,printable⟩⟩)

theorem column_past_endLine (cursor : Cursor) (written : List Char) :
    (cursor.past (endLine written)).column = 0 := by
  apply Cursor.column_past_of_getLast?
  unfold endLine
  split
  · next ended => exact ended
  · rw [List.getLast?_append]
    rfl

theorem ReadsValue.after_space {written : List Char} {tokens : List Token} (reads : ReadsValue written tokens)
    {scanner : Scanner} (inBlock : scanner.InBlock) (cursor : Cursor) {tail : List Char}
    (ahead : LineAhead tail) : ∃ next : Scanner, next.InBlock ∧ next.keyAllowed = true ∧
      next.tokens = tokens.reverse ++ scanner.tokens ∧
      Scans scanner (cursor.spots (' ' :: (endLine written ++ tail))) next
        ((cursor.past (' ' :: endLine written)).spots tail) := by
  have column : (cursor.after ' ').column ≠ 0 := by
    rw [Cursor.column_after rfl]
    exact Nat.succ_ne_zero _
  obtain ⟨next,still,allowed,read,scans⟩ := reads.reads scanner (cursor.after ' ') tail inBlock column ahead
  refine ⟨next,still,allowed,read,.trans (.skip (fun limit => scanFrom?_space _ _ limit _) ?_) scans⟩
  simp [Cursor.length_spots]

theorem scans_member {name : String} (isName : MemberName name) {written : List Char}
    {tokens : List Token} (reads : ReadsValue written tokens) {scanner : Scanner}
    (awaits : scanner.AwaitsMember) {cursor : Cursor} (column : cursor.column = 0) {tail : List Char}
    (ahead : LineAhead tail) :
    ∃ next : Scanner, next.InBlock ∧ next.keyAllowed = true ∧
      next.tokens = (nameTokens scanner.columns name ++ tokens).reverse ++ scanner.tokens ∧
      (cursor.past (writeMember name written)).column = 0 ∧
      Scans scanner (cursor.spots (writeMember name written ++ tail)) next
        ((cursor.past (writeMember name written)).spots tail) := by
  have whole : writeMember name written = (name.toList ++ [':']) ++ ' ' :: endLine written := by
    rw [writeMember,show name.toList ++ ':' :: ' ' :: written = name.toList ++ [':',' '] ++ written by simp,
      endLine_append _ reads.nonempty]
    simp
  have scansName := scans_name isName awaits column
    (show isBlank ' ' = true ∨ isBreak ' ' = true from .inl rfl) (endLine written ++ tail)
  obtain ⟨next,still,allowed,tokensNext,scansValue⟩ :=
    reads.after_space (scanner.valued_inBlock name) (cursor.past (name.toList ++ [':'])) ahead
  refine ⟨next,still,allowed,?_,?_,?_⟩
  · rw [tokensNext,List.reverse_append,List.append_assoc]
    rfl
  · rw [whole,Cursor.past_append,Cursor.past_cons]
    exact column_past_endLine _ _
  · rw [whole,Cursor.past_append]
    rw [List.append_assoc,List.append_assoc]
    exact scansName.trans scansValue

-- Lines

def listTokens : List String → List Token
  | [] => [.openSequence,.closeSequence]
  | texts => texts.flatMap fun text => [.dash,.scalar (styleOf text) text]

/-- What is written of some lines is scanned to tokens, whatever line comes next. -/
structure ReadsLines (written : List Char) (tokens : List Token) : Prop where
  printable : Printable written
  ahead : ∀ tail, LineAhead tail → LineAhead (written ++ tail)
  reads : ∀ (scanner : Scanner) (cursor : Cursor) (tail : List Char), scanner.InBlock →
    scanner.keyAllowed = true → cursor.column = 0 → LineAhead tail → ∃ next : Scanner, next.InBlock ∧
      next.keyAllowed = true ∧ next.tokens = tokens.reverse ++ scanner.tokens ∧
      (cursor.past written).column = 0 ∧
      Scans scanner (cursor.spots (written ++ tail)) next ((cursor.past written).spots tail)

namespace ReadsLines

theorem nil : ReadsLines [] [] where
  printable := List.forall_mem_nil _
  ahead _ ahead := ahead
  reads scanner _ _ inBlock allowed column _ :=
    ⟨scanner,inBlock,allowed,rfl,column,.skip (fun _ => rfl) (Nat.le_refl _)⟩

theorem append {first second : List Char} {tokens more : List Token} (before : ReadsLines first tokens)
    (after : ReadsLines second more) : ReadsLines (first ++ second) (tokens ++ more) where
  printable := List.forall_mem_append.mpr ⟨before.printable,after.printable⟩
  ahead tail ahead := by
    rw [List.append_assoc]
    exact before.ahead _ (after.ahead tail ahead)
  reads scanner cursor tail inBlock allowed column ahead := by
    obtain ⟨middle,still,goesOn,read,start,scans⟩ :=
      before.reads scanner cursor (second ++ tail) inBlock allowed column (after.ahead tail ahead)
    obtain ⟨next,inBlock,allowed,reads,column,scansMore⟩ :=
      after.reads middle (cursor.past first) tail still goesOn start ahead
    rw [Cursor.past_append,List.append_assoc]
    refine ⟨next,inBlock,allowed,?_,column,scans.trans scansMore⟩
    rw [reads,read,List.reverse_append,List.append_assoc]

theorem flatMap {α : Type} {items : List α} {written : α → List Char} {tokens : α → List Token}
    (reads : ∀ item ∈ items, ReadsLines (written item) (tokens item)) :
    ReadsLines (items.flatMap written) (items.flatMap tokens) := by
  induction items with
  | nil => exact nil
  | cons item rest ih =>
    obtain ⟨here,later⟩ := List.forall_mem_cons.mp reads
    exact here.append (ih later)

theorem member {name : String} (isName : MemberName name) {written : List Char} {tokens : List Token}
    (reads : ReadsValue written tokens) :
    ReadsLines (writeMember name written) ([.key,.scalar .plain name,.value] ++ tokens) where
  printable := printable_writeMember isName reads.printable
  ahead tail ahead := by
    obtain ⟨c,rest,shape,plain,_⟩ := isName.plain
    rw [writeMember,shape,List.cons_append,← List.singleton_append,endLine_append _ (by simp)]
    intro d first
    cases Option.some.inj first
    exact plain.solid
  reads scanner cursor tail inBlock allowed column ahead := by
    obtain ⟨next,still,goesOn,read,start,scans⟩ :=
      scans_member isName reads (inBlock.awaitsMember allowed) column ahead
    refine ⟨next,still,goesOn,?_,start,scans⟩
    rw [read,inBlock.columns,nameTokens_open]

theorem isMark_of_second {mark c d : Char} (other : d ≠ mark) (cursor : Cursor) (rest : List Char) :
    isMark mark (cursor.spots (c :: d :: rest)) = false := by
  cases rest with
  | nil => rfl
  | cons e rest => simp [Cursor.spots,isMark,other]

theorem item {written : List Char} {tokens : List Token} (reads : ReadsValue written tokens) :
    ReadsLines (endLine ('-' :: ' ' :: written)) (.dash :: tokens) where
  printable := printable_endLine
    (List.forall_mem_cons.mpr ⟨rfl,List.forall_mem_cons.mpr ⟨rfl,reads.printable⟩⟩)
  ahead tail _ := by
    rw [← List.singleton_append,endLine_append _ (by simp)]
    intro d first
    cases Option.some.inj first
    exact ⟨rfl,rfl⟩
  reads scanner cursor tail inBlock allowed column ahead := by
    have whole : endLine ('-' :: ' ' :: written) = '-' :: ' ' :: endLine written :=
      endLine_append ['-',' '] reads.nonempty
    obtain ⟨dropped,drops,still,same,_⟩ := inBlock.dropKey?
    have opened : scanner.openBlockHere 0 .sequenceStart = scanner := by
      simp [openBlockHere,openBlock,inBlock.columns]
    have dashed : Scans scanner (cursor.spots ('-' :: ' ' :: (endLine written ++ tail)))
        ((dropped.allowKey true).emit .dash) ((cursor.after '-').spots (' ' :: (endLine written ++ tail))) := by
      refine inBlock.scans_token ⟨rfl,rfl⟩ (by decide) (by decide) ?_ (Nat.le_refl _)
      have noMark (mark : Char) (known : mark = '-' ∨ mark = '.') :
          isMark mark (cursor.spot '-' :: (cursor.after '-').spots (' ' :: (endLine written ++ tail))) =
            false := by
        apply isMark_of_second
        rcases known with rfl | rfl <;> decide
      have word : endsWord ((cursor.after '-').spots (' ' :: (endLine written ++ tail))) = true := rfl
      have dash : scanner.token? (cursor.spot '-') ((cursor.after '-').spots (' ' :: (endLine written ++ tail))) =
          scanner.dash? (cursor.spot '-') ((cursor.after '-').spots (' ' :: (endLine written ++ tail))) := by
        rw [token?,noMark '-' (.inl rfl),noMark '.' (.inr rfl),Cursor.spot_char,word]
        simp
      rw [dash,dash?,Cursor.spot_column,column,opened,allowed,Bool.not_true,Bool.and_false,
        if_neg (by decide)]
      exact Option.bind_eq_some_iff.mpr ⟨dropped,drops,rfl⟩
    obtain ⟨next,inside,goesOn,read,scans⟩ :=
      reads.after_space ((still.allowKey true).emit .dash) (cursor.after '-') ahead
    rw [whole]
    refine ⟨next,inside,goesOn,?_,column_past_endLine ((cursor.after '-').after ' ') written,
      dashed.trans scans⟩
    rw [read,← same,List.reverse_cons,List.append_assoc]
    rfl

theorem listItem (text : String) :
    ReadsLines (endLine ('-' :: ' ' :: writeText text)) [.dash,.scalar (styleOf text) text] :=
  item (readsValue_writeText text)

theorem below {name : String} (isName : MemberName name) {lines : List Char} {tokens : List Token}
    (reads : ReadsLines lines tokens) : ReadsLines (name.toList ++ ':' :: '\n' :: lines)
      ([.key,.scalar .plain name,.value] ++ tokens) where
  printable := by
    rw [List.append_cons]
    exact List.forall_mem_append.mpr ⟨isName.printable,List.forall_mem_cons.mpr ⟨rfl,reads.printable⟩⟩
  ahead tail _ := by
    obtain ⟨c,rest,shape,plain,_⟩ := isName.plain
    rw [shape]
    intro d first
    cases Option.some.inj first
    exact plain.solid
  reads scanner cursor tail inBlock allowed column ahead := by
    have scansName := scans_name isName (inBlock.awaitsMember allowed) column
      (show isBlank '\n' = true ∨ isBreak '\n' = true from .inr rfl) (lines ++ tail)
    have inside := scanner.valued_inBlock name
    have line := inside.scans_line (cursor.past (name.toList ++ [':'])) (lines ++ tail)
    obtain ⟨next,still,goesOn,readLines,start,scans⟩ := reads.reads ((scanner.valued name).allowKey true)
      ((cursor.past (name.toList ++ [':'])).past ['\n']) tail (inside.allowKey true) rfl
      (column_past_endLine _ []) ahead
    have past : cursor.past (name.toList ++ ':' :: '\n' :: lines) =
        ((cursor.past (name.toList ++ [':'])).past ['\n']).past lines := by
      rw [List.append_cons,Cursor.past_append]
      rfl
    rw [past]
    refine ⟨next,still,goesOn,?_,start,?_⟩
    · have names : ((scanner.valued name).allowKey true).tokens =
          (nameTokens scanner.columns name).reverse ++ scanner.tokens := rfl
      rw [readLines,names,inBlock.columns,nameTokens_open,List.reverse_append,List.append_assoc]
    · rw [List.append_assoc]
      exact (scansName.trans line).trans scans

/-- A list, in one line if it is empty. -/
theorem list {name : String} (isName : MemberName name) (texts : List String) :
    ReadsLines (writeList name texts) ([.key,.scalar .plain name,.value] ++ listTokens texts) := by
  cases texts with
  | nil => exact member isName readsValue_brackets
  | cons text texts => exact below isName (flatMap fun item _ => listItem item)

end ReadsLines

theorem scanFrom?_end {scanner : Scanner} (inBlock : scanner.InBlock) (limit : Nat) :
    scanner.scanFrom? limit [] = some (scanner.tokens.reverse ++ [.blockEnd]) := by
  obtain ⟨tokens,keyAllowed,keys,columns⟩ := scanner
  obtain rfl : columns = [0] := inBlock.columns
  obtain ⟨key,shape,free⟩ := inBlock.keys
  obtain rfl : keys = [key] := shape
  have skipped (inFlow allowed : Bool) : skipBlanks inFlow allowed false [] = (allowed,[]) := rfl
  unfold scanFrom?
  rw [skipped]
  cases key with
  | none => simp [endBlocks?,closeBlocks,inFlow,dropKey?,allowKey]
  | some possible =>
    simp [endBlocks?,closeBlocks,inFlow,dropKey?,allowKey,free possible rfl]

/-- The tokens of a text of members, the first of which opens the block that holds them all. -/
theorem tokens?_members {name : String} (isName : MemberName name) {written lines : List Char}
    {tokens more : List Token} (reads : ReadsValue written tokens) (readsLines : ReadsLines lines more) :
    tokens? (writeMember name written ++ lines) = some
      (.mappingStart :: ([.key,.scalar .plain name,.value] ++ tokens ++ more) ++ [.blockEnd]) := by
  have printable : Printable (writeMember name written ++ lines) := List.forall_mem_append.mpr
    ⟨printable_writeMember isName reads.printable,readsLines.printable⟩
  have nothing : LineAhead [] := fun _ no => (nomatch no)
  have awaits : Scanner.new.AwaitsMember := ⟨.inl rfl,⟨none,rfl,fun _ no => (nomatch no)⟩,rfl⟩
  have ahead := readsLines.ahead [] nothing
  rw [List.append_nil] at ahead
  obtain ⟨first,inBlock,allowed,read,column,scansFirst⟩ :=
    scans_member isName reads awaits (show (Cursor.mk 0 0 0).column = 0 from rfl) ahead
  obtain ⟨last,still,_,readLines,_,scansLines⟩ :=
    readsLines.reads first _ [] inBlock allowed column nothing
  rw [List.append_nil] at scansLines
  obtain ⟨steps,fewer,scanned⟩ := scansFirst.trans scansLines
  obtain ⟨limit,enough⟩ : ∃ limit, (writeMember name written ++ lines).length = steps + limit := by
    simp only [Cursor.length_spots] at fewer
    exact Nat.exists_eq_add_of_le (by omega)
  rw [tokens?,spots?_of_printable printable,enough]
  simp only [Option.bind_eq_bind,Option.bind_some]
  rw [scanned,Cursor.spots_nil,scanFrom?_end still,readLines,read]
  simp [nameTokens,Scanner.new]

end SourceAtlas.Yaml
