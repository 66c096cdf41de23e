import Mathlib.Tactic.Ring
import SourceAtlas.Proofs.YamlPlain

/-! Reading quoted scalars back. In single quotes line breaks stand for themselves and indentation after
them is passed over; in double quotes there are no line breaks, and escapes give every other character. -/
namespace SourceAtlas.Yaml

-- Single quotes

theorem singleFrom_white {before : List Char} {gap : Gap} {cursor : Cursor} {c : Char}
    (white : isBlank c = true ∨ isBreak c = true) (rest : List Spot) :
    singleFrom before gap false (cursor.spot c :: rest) = singleFrom before (gap.add c) false rest := by
  have isWhite : (cursor.spot c).white = true := by
    rw [white_spot]
    rcases white with blank | ends
    · rw [blank]
      rfl
    · rw [ends,Bool.or_true]
  have noMark : isDocumentMark (cursor.spot c :: rest) = false := by
    apply isDocumentMark_of_ne <;> (rintro rfl; exact absurd white (by decide))
  rw [singleFrom,noMark,isWhite]
  rfl

theorem singleFrom_indentation {before : List Char} {gap : Gap} (broken : gap.broken = true)
    (cursor : Cursor) (rest : List Char) :
    singleFrom before gap false (cursor.spots (indentation ++ rest)) =
      singleFrom before gap false ((cursor.past indentation).spots rest) := by
  have stays : gap.add ' ' = gap := by simp [Gap.add,broken,isBreak]
  rw [Cursor.spots_append]
  change singleFrom before gap false (cursor.spot ' ' :: (cursor.after ' ').spot ' ' :: _) = _
  rw [singleFrom_white (.inl rfl),singleFrom_white (.inl rfl),stays,stays]
  rfl

theorem singleFrom_char {before : List Char} {gap : Gap} {cursor : Cursor} {c : Char}
    (column : cursor.column ≠ 0) (solid : isBlank c = false ∧ isBreak c = false) (rest : List Char) :
    singleFrom before gap false
        (cursor.spots ((if c = '\x27' then ['\x27','\x27'] else [c]) ++ rest)) =
      singleFrom (c :: gap.appendTo before) .none false
        ((cursor.past (if c = '\x27' then ['\x27','\x27'] else [c])).spots rest) := by
  have white : (cursor.spot c).white = false := by rw [white_spot,solid.1,solid.2]; rfl
  split
  · next isQuote =>
    subst isQuote
    change singleFrom before gap false (cursor.spot '\x27' :: (cursor.after '\x27').spot '\x27' :: _) = _
    rw [singleFrom,isDocumentMark_of_column column,white]
    rfl
  · next other =>
    have noQuote : (c == singleQuote) = false := by simpa [singleQuote] using other
    change singleFrom before gap false (cursor.spot c :: _) = _
    rw [singleFrom,isDocumentMark_of_column column,white,Cursor.spot_char,noQuote]
    rfl

theorem singleFrom_quote {before : List Char} {gap : Gap} {cursor : Cursor} {tail : List Char}
    (column : cursor.column ≠ 0) (ahead : tail.head? ≠ some '\x27') :
    singleFrom before gap false (cursor.spots ('\x27' :: tail)) =
      some ⟨(gap.appendTo before).reverse,false,(cursor.after '\x27').spots tail⟩ := by
  rw [Cursor.spots_cons,singleFrom,isDocumentMark_of_column column]
  cases tail with
  | nil => rfl
  | cons c tail =>
    have noQuote : (c == singleQuote) = false := by
      rw [beq_eq_false_iff_ne]
      rintro rfl
      exact ahead rfl
    change singleFrom (gap.appendTo before) .none true (((cursor.after '\x27').spot c) :: _) = _
    rw [singleFrom,Cursor.spot_char,noQuote]
    rfl

theorem anyPair_cons {condition : Char → Char → Bool} {last : Option Char} {c : Char} {rest : List Char}
    (none : anyPair condition (last.toList ++ c :: rest) = false) :
    (∀ d, last = some d → condition d c = false) ∧ anyPair condition (c :: rest) = false := by
  cases last with
  | none => exact ⟨fun d no => (nomatch no),none⟩
  | some d =>
    simp only [Option.toList_some,List.singleton_append,anyPair,Bool.or_eq_false_iff] at none
    refine ⟨fun e same => ?_,none.2⟩
    cases same
    exact none.1

/-- What is written of one character in single quotes, at the start of a line or within it. -/
def singlePart (atStart : Bool) (c : Char) : List Char :=
  if isBreak c then [c]
  else (if atStart then indentation else []) ++ (if c = '\x27' then ['\x27','\x27'] else [c])

theorem singleBody_cons (atStart : Bool) (c : Char) (rest : List Char) :
    singleBody atStart (c :: rest) = singlePart atStart c ++ singleBody (isBreak c) rest := by
  rw [singleBody,singlePart]
  cases isBreak c <;> rfl

theorem column_past_indentation (cursor : Cursor) : (cursor.past indentation).column ≠ 0 := by
  rw [Cursor.column_past indentation_inLine]
  exact Nat.succ_ne_zero _

theorem singleFrom_solid (before : List Char) {gap : Gap} {cursor : Cursor} {c : Char}
    (column : gap.broken = false → cursor.column ≠ 0) (solid : isBlank c = false ∧ isBreak c = false) :
    (cursor.past (singlePart gap.broken c)).column ≠ 0 ∧ ∀ rest : List Char,
      singleFrom before gap false (cursor.spots (singlePart gap.broken c ++ rest)) =
        singleFrom (c :: gap.appendTo before) .none false
          ((cursor.past (singlePart gap.broken c)).spots rest) := by
  have part : singlePart gap.broken c = (if gap.broken then indentation else []) ++
      (if c = '\x27' then ['\x27','\x27'] else [c]) := if_neg (by simp [solid.2])
  have skip (text : List Char) : singleFrom before gap false
      (cursor.spots ((if gap.broken then indentation else []) ++ text)) = singleFrom before gap false
        ((cursor.past (if gap.broken then indentation else [])).spots text) := by
    cases broken : gap.broken with
    | true => exact singleFrom_indentation broken cursor text
    | false => rfl
  have started : (cursor.past (if gap.broken then indentation else [])).column ≠ 0 := by
    cases broken : gap.broken with
    | true => exact column_past_indentation cursor
    | false => exact column broken
  have inLine : ∀ d ∈ (if c = '\x27' then ['\x27','\x27'] else [c]), isBreak d = false := by
    split
    · simp [isBreak]
    · exact List.forall_mem_singleton.mpr solid.2
  rw [part,Cursor.past_append]
  refine ⟨?_,fun rest => ?_⟩
  · rw [Cursor.column_past inLine]
    omega
  · rw [List.append_assoc,skip,singleFrom_char started solid]

/-- One character in single quotes: a line break opens a broken gap, indentation does not change it, and
any other character ends it. -/
theorem singleFrom_part {cursor : Cursor} {before read : List Char} {gap : Gap} {c : Char}
    (printable : isPrintable c = true) (own : c ≠ '\n')
    (unled : ∀ d, read.getLast? = some d → (isBreak d && c == ' ') = false)
    (unspaced : ∀ d, read.getLast? = some d → (d == ' ' && isBreak c) = false)
    (holds : Holds before gap read) (column : gap.broken = false → cursor.column ≠ 0) :
    ∃ before' gap', Holds before' gap' (read ++ [c]) ∧ gap'.broken = isBreak c ∧
      (isBreak c = false → (cursor.past (singlePart gap.broken c)).column ≠ 0) ∧ ∀ rest : List Char,
        singleFrom before gap false (cursor.spots (singlePart gap.broken c ++ rest)) =
          singleFrom before' gap' false ((cursor.past (singlePart gap.broken c)).spots rest) := by
  cases ends : isBreak c with
  | true =>
    have unspacedHere : read.getLast? ≠ some ' ' := by
      intro spaced
      simpa [ends] using unspaced ' ' spaced
    obtain ⟨next,broken⟩ := holds.lineBreak ends own unspacedHere
    have part : singlePart gap.broken c = [c] := if_pos ends
    rw [part]
    exact ⟨before,_,next,broken,fun other => absurd other (by decide),
      fun rest => singleFrom_white (.inr ends) _⟩
  | false =>
    cases blank : isBlank c with
    | true =>
      obtain rfl := eq_space_of_isBlank printable blank
      have unbroken : gap.broken = false := by
        by_contra broken
        obtain ⟨lineEnd,_⟩ := holds.broken (by simpa using broken)
        cases lastRead : read.getLast? with
        | none => simp [lastRead] at lineEnd
        | some d =>
          rw [lastRead] at lineEnd
          simpa [show isBreak d = true from lineEnd] using unled d lastRead
      obtain ⟨next,stays⟩ := holds.space unbroken
      rw [unbroken]
      refine ⟨before,_,next,stays,fun _ => ?_,fun rest => singleFrom_white (.inl rfl) _⟩
      rw [show singlePart false ' ' = [' '] from rfl,Cursor.past_cons,Cursor.past_nil,Cursor.column_after ends]
      exact Nat.succ_ne_zero _
    | false =>
      obtain ⟨moved,reads⟩ := singleFrom_solid before column ⟨blank,ends⟩
      exact ⟨_,.none,holds.char c,rfl,fun _ => moved,reads⟩

/-- Reading what is written of a text in single quotes gives the text. By induction on the text. -/
theorem singleFrom_body {text tail : List Char} {cursor : Cursor} {before read : List Char} {gap : Gap}
    (printable : Printable text) (noLine : '\n' ∉ text)
    (unled : anyPair (fun a b => isBreak a && b == ' ') (read.getLast?.toList ++ text) = false)
    (unspaced : anyPair (fun a b => a == ' ' && isBreak b) (read.getLast?.toList ++ text) = false)
    (holds : Holds before gap read) (column : gap.broken = false → cursor.column ≠ 0)
    (ahead : tail.head? ≠ some '\x27') :
    singleFrom before gap false (cursor.spots (singleBody gap.broken text ++ '\x27' :: tail)) =
      some ⟨read ++ text,false,
        (cursor.past (singleBody gap.broken text ++ ['\x27'])).spots tail⟩ := by
  induction text generalizing cursor before read gap with
  | nil =>
    have whole : (gap.appendTo before).reverse = read ++ [] := by
      rw [holds.whole,List.reverse_reverse,List.append_nil]
    rw [Cursor.past_append]
    cases broken : gap.broken with
    | true =>
      simp only [singleBody,if_true]
      rw [singleFrom_indentation broken,singleFrom_quote (column_past_indentation cursor) ahead,whole]
      rfl
    | false =>
      simp only [singleBody,Bool.false_eq_true,if_false]
      rw [List.nil_append,singleFrom_quote (column broken) ahead,whole]
      rfl
  | cons c rest ih =>
    obtain ⟨here,later⟩ := List.forall_mem_cons.mp printable
    obtain ⟨own,noLater⟩ := not_or.mp (List.mem_cons.not.mp noLine)
    obtain ⟨noLead,unled⟩ := anyPair_cons unled
    obtain ⟨noSpace,unspaced⟩ := anyPair_cons unspaced
    have last : (read ++ [c]).getLast?.toList ++ rest = c :: rest := by simp
    rw [← last] at unled unspaced
    obtain ⟨before',gap',next,broken,moved,reads⟩ :=
      singleFrom_part here (Ne.symm own) noLead noSpace holds column
    rw [singleBody_cons,← broken,List.append_assoc,List.append_assoc,reads,Cursor.past_append,
      List.append_cons read]
    exact ih later noLater unled unspaced next fun open' => moved (broken.symm.trans open')

theorem writeSingle_eq (text : List Char) :
    writeSingle text = '\x27' :: (singleBody false text ++ ['\x27']) := rfl

theorem printable_singleBody {text : List Char} (printable : Printable text) (atStart : Bool) :
    Printable (singleBody atStart text) := by
  induction text generalizing atStart with
  | nil => exact printable_indentation atStart
  | cons c rest ih =>
    obtain ⟨here,later⟩ := List.forall_mem_cons.mp printable
    unfold singleBody
    split
    · exact List.forall_mem_cons.mpr ⟨here,ih later true⟩
    · have character : Printable (if c = '\x27' then ['\x27','\x27'] else [c]) := by
        split
        · decide
        · exact List.forall_mem_singleton.mpr here
      exact List.forall_mem_append.mpr
        ⟨List.forall_mem_append.mpr ⟨printable_indentation atStart,character⟩,ih later false⟩

theorem printable_writeSingle {text : List Char} (printable : Printable text) :
    Printable (writeSingle text) := by
  rw [writeSingle_eq]
  exact List.forall_mem_cons.mpr ⟨rfl,List.forall_mem_append.mpr
    ⟨printable_singleBody printable false,show Printable ['\x27'] by decide⟩⟩

theorem singleFrom_writeSingle {text tail : List Char} {cursor : Cursor} (single : mayBeSingle text = true)
    (noLine : '\n' ∉ text) (ahead : tail.head? ≠ some '\x27') :
    singleFrom [] .none false ((cursor.after '\x27').spots (singleBody false text ++ '\x27' :: tail)) =
      some ⟨text,false,(cursor.past (writeSingle text)).spots tail⟩ := by
  simp only [mayBeSingle,Bool.and_eq_true,Bool.not_eq_true',needsDouble_eq_false] at single
  obtain ⟨⟨printable,unspaced⟩,unled⟩ := single
  have moved : (cursor.after '\x27').column ≠ 0 := by
    rw [Cursor.column_after rfl]
    exact Nat.succ_ne_zero _
  exact @singleFrom_body text tail _ [] [] .none printable noLine unled unspaced Holds.start
    (fun _ => moved) ahead

-- Double quotes

theorem escape?_of_escapeLetter? {c letter : Char} (known : escapeLetter? c = some letter) :
    escape? letter = some c ∧ isPrintable letter = true ∧ isBreak letter = false := by
  unfold escapeLetter? at known
  split at known
  all_goals first
    | cases known; exact ⟨rfl,rfl,rfl⟩
    | cases known

theorem hexValue?_upper : ∀ n < 16, Text.hexValue? (Text.hexDigit n).toUpper = some n ∧
    isPrintable (Text.hexDigit n).toUpper = true ∧ isBreak (Text.hexDigit n).toUpper = false := by
  decide

theorem isPrintable_upperHex {c : Char} {n count : Nat} (inside : c ∈ Text.upperHex n count) :
    isPrintable c = true ∧ isBreak c = false := by
  induction count generalizing n with
  | zero => cases inside
  | succ count ih =>
    rcases List.mem_append.mp inside with earlier | last
    · exact ih earlier
    · rw [List.mem_singleton.mp last]
      exact (hexValue?_upper (n % 16) (Nat.mod_lt n (by decide))).2

theorem doubleFrom_digit {before : List Char} {gap : Gap} {more value n : Nat} (cursor : Cursor)
    (rest : List Spot) :
    doubleFrom before gap (.digits (more + 1) value)
        (cursor.spot (Text.hexDigit (n % 16)).toUpper :: rest) =
      doubleFrom before .none (.digits more (16 * value + n % 16)) rest := by
  have digit := (hexValue?_upper (n % 16) (Nat.mod_lt n (by decide))).1
  simp only [doubleFrom,Cursor.spot_char,digit]

/-- Reading digits of a number one after the other, all but as many as `more` and one. -/
theorem doubleFrom_digits {before : List Char} {count more value n : Nat} {cursor : Cursor}
    {tail : List Char} : doubleFrom before .none (.digits (count + more) value)
        (cursor.spots (Text.upperHex n count ++ tail)) =
      doubleFrom before .none (.digits more (value * 16 ^ count + n % 16 ^ count))
        ((cursor.past (Text.upperHex n count)).spots tail) := by
  induction count generalizing n more tail with
  | zero => simp [Text.upperHex,Cursor.past_nil,Nat.mod_one]
  | succ count ih =>
    rw [Text.upperHex,List.append_assoc,Cursor.past_append,Nat.add_right_comm,Nat.add_assoc,ih,
      List.singleton_append,Cursor.spots_cons,doubleFrom_digit]
    congr 2
    have split : n % 16 ^ (count + 1) = n % 16 + 16 * (n / 16 % 16 ^ count) := by
      rw [Nat.pow_succ',Nat.mod_mul]
    rw [split,Nat.pow_succ]
    ring

/-- The last digit of a number makes a character of it. -/
theorem doubleFrom_number {before : List Char} {count : Nat} {c : Char} {cursor : Cursor}
    {tail : List Char} (fits : c.toNat < 16 ^ (count + 1)) :
    doubleFrom before .none (.digits count 0)
        (cursor.spots (Text.upperHex c.toNat (count + 1) ++ tail)) =
      doubleFrom (c :: before) .none .none
        ((cursor.past (Text.upperHex c.toNat (count + 1))).spots tail) := by
  have digit := (hexValue?_upper (c.toNat % 16) (Nat.mod_lt _ (by decide))).1
  have split : c.toNat % 16 ^ (count + 1) = c.toNat % 16 + 16 * (c.toNat / 16 % 16 ^ count) := by
    rw [Nat.pow_succ',Nat.mod_mul]
  have value : 16 * (0 * 16 ^ count + c.toNat / 16 % 16 ^ count) + c.toNat % 16 = c.toNat := by
    rw [Nat.mod_eq_of_lt fits] at split
    omega
  have character : charOf? c.toNat = some c := by
    rw [charOf?,if_pos (show c.toNat.isValidChar from c.valid)]
    exact congrArg some (Char.ofNat_toNat c)
  have digits : doubleFrom before .none (.digits count 0)
      (cursor.spots (Text.upperHex (c.toNat / 16) count ++
        ([(Text.hexDigit (c.toNat % 16)).toUpper] ++ tail))) = _ := @doubleFrom_digits before count 0 ..
  rw [Text.upperHex,List.append_assoc,Cursor.past_append,digits,List.singleton_append,Cursor.spots_cons]
  simp only [doubleFrom,Cursor.spot_char,digit,value,character]
  rfl

theorem isBreak_of_escapeLetter? {c : Char} (unknown : escapeLetter? c = none) :
    isBreak c = false ∧ c ≠ '"' ∧ c ≠ '\\' := by
  have other (d : Char) (known : (escapeLetter? d).isSome = true) : c ≠ d := by
    rintro rfl
    rw [unknown] at known
    cases known
  refine ⟨?_,other _ rfl,other _ rfl⟩
  simp only [isBreak,Bool.or_eq_false_iff,beq_eq_false_iff_ne]
  exact ⟨⟨⟨⟨other _ rfl,other _ rfl⟩,other _ rfl⟩,other _ rfl⟩,other _ rfl⟩

theorem isPrintable_escapeNumber {c : Char} {n : Nat} (inside : c ∈ escapeNumber n) :
    isPrintable c = true ∧ isBreak c = false := by
  obtain ⟨letter,known,count,shape⟩ : ∃ letter ∈ ['x','u','U'], ∃ count,
      escapeNumber n = letter :: Text.upperHex n count := by
    unfold escapeNumber
    split
    · exact ⟨_,by decide,_,rfl⟩
    · split
      · exact ⟨_,by decide,_,rfl⟩
      · exact ⟨_,by decide,_,rfl⟩
  have signs : ∀ sign ∈ ['x','u','U'], isPrintable sign = true ∧ isBreak sign = false := by
    simp [isPrintable,isBreak]
  rw [shape] at inside
  rcases List.mem_cons.mp inside with rfl | digit
  · exact signs _ known
  · exact isPrintable_upperHex digit

/-- What is written in double quotes is printable, and nothing in it ends a line. -/
theorem isPrintable_doubleChar {c d : Char} (inside : d ∈ doubleChar c) :
    isPrintable d = true ∧ isBreak d = false := by
  unfold doubleChar at inside
  split at inside
  · next letter known =>
    rcases List.mem_cons.mp inside with rfl | last
    · exact ⟨rfl,rfl⟩
    · rw [List.mem_singleton.mp last]
      exact (escape?_of_escapeLetter? known).2
  · next unknown =>
    split at inside
    · next printable =>
      rw [List.mem_singleton.mp inside]
      exact ⟨printable,(isBreak_of_escapeLetter? unknown).1⟩
    · rcases List.mem_cons.mp inside with rfl | number
      · exact ⟨rfl,rfl⟩
      · exact isPrintable_escapeNumber number

theorem doubleFrom_escape {before : List Char} {gap : Gap} {cursor : Cursor} (column : cursor.column ≠ 0)
    (rest : List Spot) : doubleFrom before gap .none (cursor.spot '\\' :: rest) =
      doubleFrom (gap.appendTo before) .none .started rest := by
  have white : (cursor.spot '\\').white = false := rfl
  simp only [doubleFrom,isDocumentMark_of_column column,white]
  rfl

theorem doubleFrom_escapeNumber {before : List Char} {c : Char} {cursor : Cursor} {tail : List Char} :
    doubleFrom before .none .started (cursor.spots (escapeNumber c.toNat ++ tail)) =
      doubleFrom (c :: before) .none .none ((cursor.past (escapeNumber c.toNat)).spots tail) := by
  have valid : c.toNat < 0x110000 := by
    rcases c.valid with low | high
    · exact Nat.lt_trans low (by decide)
    · exact high.2
  unfold escapeNumber
  split
  · next short =>
    rw [List.cons_append,Cursor.spots_cons,Cursor.past_cons,
      ← doubleFrom_number (show c.toNat < 16 ^ (1 + 1) by omega)]
    rfl
  · split
    · next middle =>
      rw [List.cons_append,Cursor.spots_cons,Cursor.past_cons,
        ← doubleFrom_number (show c.toNat < 16 ^ (3 + 1) by omega)]
      rfl
    · rw [List.cons_append,Cursor.spots_cons,Cursor.past_cons,
        ← doubleFrom_number (show c.toNat < 16 ^ (7 + 1) by omega)]
      rfl

/-- One character in double quotes: a space widens the gap, anything else ends it. -/
theorem doubleFrom_char {before read : List Char} {gap : Gap} {cursor : Cursor} (c : Char)
    (holds : Holds before gap read) (unbroken : gap.broken = false) (column : cursor.column ≠ 0)
    (tail : List Char) : ∃ before' gap', Holds before' gap' (read ++ [c]) ∧ gap'.broken = false ∧
      doubleFrom before gap .none (cursor.spots (doubleChar c ++ tail)) =
        doubleFrom before' gap' .none ((cursor.past (doubleChar c)).spots tail) := by
  unfold doubleChar
  split
  · next letter known =>
    obtain ⟨meant,_,inLine⟩ := escape?_of_escapeLetter? known
    refine ⟨_,.none,holds.char c,rfl,?_⟩
    have noBreak : ((cursor.after '\\').spot letter).breaks = false := inLine
    change doubleFrom before gap .none (cursor.spot '\\' :: (cursor.after '\\').spot letter :: _) = _
    rw [doubleFrom_escape column]
    simp only [doubleFrom,noBreak,Cursor.spot_char,meant]
    rfl
  · next unknown =>
    split
    · next printable =>
      obtain ⟨inLine,noQuote,noEscape⟩ := isBreak_of_escapeLetter? unknown
      change ∃ before' gap', _ ∧ _ ∧ doubleFrom before gap .none (cursor.spot c :: _) = _
      cases blank : isBlank c with
      | true =>
        obtain rfl := eq_space_of_isBlank printable blank
        obtain ⟨next,stays⟩ := holds.space unbroken
        have white : (cursor.spot ' ').white = true := rfl
        refine ⟨before,gap.add ' ',next,stays,?_⟩
        simp only [doubleFrom,isDocumentMark_of_column column,white]
        rfl
      | false =>
        have white : (cursor.spot c).white = false := by rw [white_spot,blank,inLine]; rfl
        refine ⟨_,.none,holds.char c,rfl,?_⟩
        simp only [doubleFrom,isDocumentMark_of_column column,white,Cursor.spot_char,
          beq_eq_false_iff_ne.mpr noQuote,beq_eq_false_iff_ne.mpr noEscape]
        rfl
    · refine ⟨_,.none,holds.char c,rfl,?_⟩
      rw [List.cons_append,Cursor.spots_cons,doubleFrom_escape column,doubleFrom_escapeNumber,
        Cursor.past_cons]

theorem doubleFrom_body {text tail : List Char} {cursor : Cursor} {before read : List Char} {gap : Gap}
    (holds : Holds before gap read) (unbroken : gap.broken = false) (column : cursor.column ≠ 0) :
    doubleFrom before gap .none (cursor.spots (text.flatMap doubleChar ++ '"' :: tail)) =
      some ⟨read ++ text,false,(cursor.past (text.flatMap doubleChar ++ ['"'])).spots tail⟩ := by
  induction text generalizing cursor before read gap with
  | nil =>
    have whole : (gap.appendTo before).reverse = read ++ [] := by
      rw [holds.whole,List.reverse_reverse,List.append_nil]
    have white : (cursor.spot '"').white = false := rfl
    change doubleFrom before gap .none (cursor.spot '"' :: _) = _
    simp only [doubleFrom,isDocumentMark_of_column column,white,whole]
    rfl
  | cons c rest ih =>
    obtain ⟨before',gap',next,stays,reads⟩ :=
      doubleFrom_char c holds unbroken column (rest.flatMap doubleChar ++ '"' :: tail)
    rw [List.flatMap_cons,List.append_assoc,List.append_assoc,reads,Cursor.past_append,
      List.append_cons read]
    apply ih next stays
    rw [Cursor.column_past fun d inside => (isPrintable_doubleChar inside).2]
    omega

theorem writeDouble_eq (text : List Char) :
    writeDouble text = '"' :: (text.flatMap doubleChar ++ ['"']) := rfl

theorem printable_writeDouble (text : List Char) : Printable (writeDouble text) := by
  rw [writeDouble_eq]
  refine List.forall_mem_cons.mpr
    ⟨rfl,List.forall_mem_append.mpr ⟨fun c inside => ?_,show Printable ['"'] by decide⟩⟩
  obtain ⟨_,_,inside⟩ := List.mem_flatMap.mp inside
  exact (isPrintable_doubleChar inside).1

theorem doubleFrom_writeDouble (text tail : List Char) (cursor : Cursor) :
    doubleFrom [] .none .none ((cursor.after '"').spots (text.flatMap doubleChar ++ '"' :: tail)) =
      some ⟨text,false,(cursor.past (writeDouble text)).spots tail⟩ := by
  have moved : (cursor.after '"').column ≠ 0 := by
    rw [Cursor.column_after rfl]
    exact Nat.succ_ne_zero _
  exact doubleFrom_body Holds.start rfl moved

end SourceAtlas.Yaml
