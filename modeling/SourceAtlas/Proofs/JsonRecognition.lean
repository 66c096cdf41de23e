import SourceAtlas.Json.Decode
import SourceAtlas.Proofs.JsonReading

/-! Whatever is read to its end is spelled by the grammar: a scanned token is the token of a lexeme, and
tokens that are read as one whole value are those of a value. -/
namespace SourceAtlas.Json

-- Scanned words and strings

def Token.IsWhole : Token → Prop
  | .brokenText _ | .broken _ | .stray => False
  | _ => True

theorem scanWord_spelled {token found : Token} {letters text after : List Char}
    (scanned : scanWord token letters text = (found,after)) (whole : found.IsWhole) :
    found = token ∧ text = letters ++ after := by
  induction letters generalizing text with
  | nil =>
    rw [scanWord] at scanned
    cases scanned
    exact ⟨rfl,rfl⟩
  | cons letter letters ih =>
    cases text with
    | nil =>
      cases scanned
      exact whole.elim
    | cons c text =>
      rw [scanWord] at scanned
      split at scanned
      · next same =>
        obtain ⟨known,rest⟩ := ih scanned
        exact ⟨known,by rw [same,rest,List.cons_append]⟩
      · cases scanned
        exact whole.elim

theorem scanText_spelled {text after : List Char} (scanned : (scanText text).after = .ok after) :
    ∃ pieces : SpelledString, text = pieces.body ++ '"' :: after ∧
      (scanText text).pieces = pieces.map SpelledPiece.piece := by
  fun_induction scanText text with
  | case2 rest =>
    cases scanned
    exact ⟨[],rfl,rfl⟩
  | case3 a b c d rest value hex ih =>
    obtain ⟨pieces,rfl,known⟩ := ih scanned
    exact ⟨.unit a b c d value hex :: pieces,rfl,congrArg _ known⟩
  | case6 letter rest _ _ c known ih =>
    obtain ⟨pieces,rfl,same⟩ := ih scanned
    exact ⟨.escape letter c known :: pieces,rfl,congrArg _ same⟩
  | case10 c rest noQuote _ _ noEscape noEnd visible ih =>
    have noSlash : c ≠ '\\' := by
      rintro rfl
      cases rest with
      | nil => exact noEnd rfl rfl
      | cons e rest => exact noEscape e rest rfl rfl
    obtain ⟨pieces,rfl,known⟩ := ih scanned
    exact ⟨.plain c (Nat.not_lt.mp visible) noQuote noSlash :: pieces,rfl,congrArg _ known⟩
  | _ => simp [TextScan.stop] at scanned

-- Scanned numerals

def Decimal (text : List Char) : Prop := ∀ c ∈ text, c.isDigit = true

theorem Decimal.nil : Decimal [] := fun _ absent => absurd absent List.not_mem_nil

theorem Decimal.cons {c : Char} {text : List Char} (later : Decimal text) (digit : c.isDigit = true) :
    Decimal (c :: text) := List.forall_mem_cons.mpr ⟨digit,later⟩

/-- What follows the whole part of a numeral. -/
def numeralTail (fraction : Option Digits) (exponent : Option Exponent) : List Char :=
  fraction.elim [] (fun digits => '.' :: digits.text) ++ exponent.elim [] Exponent.text

/-- What may follow in a numeral, by the part that was read last. -/
def NumeralPart.Continues : NumeralPart → List Char → Prop
  | start, rest => ∃ (digits : Digits) (fraction : Option Digits) (exponent : Option Exponent),
    (digits.first = '0' → digits.rest = []) ∧ rest = digits.text ++ numeralTail fraction exponent
  | whole, rest => ∃ digits fraction exponent, Decimal digits ∧ rest = digits ++ numeralTail fraction exponent
  | wholeEnd, rest => ∃ fraction exponent, rest = numeralTail fraction exponent
  | fractionStart, rest => ∃ (digits : Digits) (exponent : Option Exponent),
    rest = digits.text ++ exponent.elim [] Exponent.text
  | fraction, rest => ∃ (digits : List Char) (exponent : Option Exponent), Decimal digits ∧
    rest = digits ++ exponent.elim [] Exponent.text
  | exponentSign, rest => ∃ (sign : Option Char) (digits : Digits), (∀ c ∈ sign, c = '+' ∨ c = '-') ∧
    rest = sign.toList ++ digits.text
  | exponentStart, rest => ∃ digits : Digits, rest = digits.text
  | exponent, rest => Decimal rest

theorem NumeralPart.continues_nil {part : NumeralPart} (mayEnd : part.mayEnd = true) :
    part.Continues [] := by
  cases part with
  | whole => exact ⟨[],none,none,.nil,rfl⟩
  | wholeEnd => exact ⟨none,none,rfl⟩
  | fraction => exact ⟨[],none,.nil,rfl⟩
  | exponent => exact .nil
  | _ => cases mayEnd

theorem wholeEnd_point {text : List Char} (later : NumeralPart.fractionStart.Continues text) :
    NumeralPart.wholeEnd.Continues ('.' :: text) := by
  obtain ⟨digits,exponent,rfl⟩ := later
  exact ⟨some digits,exponent,rfl⟩

theorem exists_exponent {c : Char} (isMark : Text.Numeral.isExponentMark c = true) {text : List Char}
    (later : NumeralPart.exponentSign.Continues text) : ∃ exponent : Exponent, c :: text = exponent.text := by
  obtain ⟨sign,digits,isSign,rfl⟩ := later
  exact ⟨⟨c,isMark,sign,isSign,digits⟩,rfl⟩

theorem wholeEnd_mark {c : Char} (isMark : Text.Numeral.isExponentMark c = true) {text : List Char}
    (later : NumeralPart.exponentSign.Continues text) : NumeralPart.wholeEnd.Continues (c :: text) := by
  obtain ⟨exponent,spelled⟩ := exists_exponent isMark later
  exact ⟨none,some exponent,spelled⟩

theorem whole_of_wholeEnd {text : List Char} (later : NumeralPart.wholeEnd.Continues text) :
    NumeralPart.whole.Continues text := by
  obtain ⟨fraction,exponent,rfl⟩ := later
  exact ⟨[],fraction,exponent,.nil,rfl⟩

theorem NumeralPart.continues_cons {part next : NumeralPart} {c : Char} {text : List Char}
    (step : part.next? c = some next) (later : next.Continues text) : part.Continues (c :: text) := by
  cases part with
  | start =>
    simp only [next?,beq_iff_eq] at step
    split at step
    · next zero =>
      cases step
      obtain ⟨fraction,exponent,rfl⟩ := later
      exact ⟨⟨c,[],Decimal.nil.cons (zero ▸ rfl)⟩,fraction,exponent,fun _ => rfl,rfl⟩
    · next noZero =>
      obtain ⟨digit,same⟩ := Option.ite_none_right_eq_some.mp step
      cases same
      obtain ⟨digits,fraction,exponent,decimal,rfl⟩ := later
      exact ⟨⟨c,digits,decimal.cons digit⟩,fraction,exponent,fun zero => absurd zero noZero,rfl⟩
  | whole =>
    simp only [next?,beq_iff_eq] at step
    split at step
    · next digit =>
      cases step
      obtain ⟨digits,fraction,exponent,decimal,rfl⟩ := later
      exact ⟨c :: digits,fraction,exponent,decimal.cons digit,rfl⟩
    · split at step
      · next point =>
        cases step
        exact point ▸ whole_of_wholeEnd (wholeEnd_point later)
      · obtain ⟨isMark,same⟩ := Option.ite_none_right_eq_some.mp step
        cases same
        exact whole_of_wholeEnd (wholeEnd_mark isMark later)
  | wholeEnd =>
    simp only [next?,beq_iff_eq] at step
    split at step
    · next point =>
      cases step
      exact point ▸ wholeEnd_point later
    · obtain ⟨isMark,same⟩ := Option.ite_none_right_eq_some.mp step
      cases same
      exact wholeEnd_mark isMark later
  | fractionStart =>
    obtain ⟨digit,same⟩ := Option.ite_none_right_eq_some.mp step
    cases same
    obtain ⟨digits,exponent,decimal,rfl⟩ := later
    exact ⟨⟨c,digits,decimal.cons digit⟩,exponent,rfl⟩
  | fraction =>
    simp only [next?] at step
    split at step
    · next digit =>
      cases step
      obtain ⟨digits,exponent,decimal,rfl⟩ := later
      exact ⟨c :: digits,exponent,decimal.cons digit,rfl⟩
    · obtain ⟨isMark,same⟩ := Option.ite_none_right_eq_some.mp step
      cases same
      obtain ⟨exponent,spelled⟩ := exists_exponent isMark later
      exact ⟨[],some exponent,.nil,spelled⟩
  | exponentSign =>
    simp only [next?,Bool.or_eq_true,beq_iff_eq] at step
    split at step
    · next isSign =>
      cases step
      obtain ⟨digits,rfl⟩ := later
      exact ⟨some c,digits,by simpa using isSign,rfl⟩
    · obtain ⟨digit,same⟩ := Option.ite_none_right_eq_some.mp step
      cases same
      exact ⟨none,⟨c,text,later.cons digit⟩,fun _ absent => absurd absent (Option.not_mem_none _),rfl⟩
  | exponentStart =>
    obtain ⟨digit,same⟩ := Option.ite_none_right_eq_some.mp step
    cases same
    exact ⟨⟨c,text,later.cons digit⟩,rfl⟩
  | exponent =>
    obtain ⟨digit,same⟩ := Option.ite_none_right_eq_some.mp step
    cases same
    exact later.cons digit

theorem scanNumeral_spelled {part : NumeralPart} {before text after : List Char} {found : Token}
    (scanned : scanNumeral part before text = (found,after)) (whole : found.IsWhole) :
    ∃ rest, part.Continues rest ∧ text = rest ++ after ∧ found = .number (before.reverse ++ rest) := by
  induction text generalizing part before with
  | nil =>
    rw [scanNumeral] at scanned
    split at scanned
    · next mayEnd =>
      cases scanned
      exact ⟨[],part.continues_nil mayEnd,rfl,by rw [List.append_nil]⟩
    · cases scanned
      exact whole.elim
  | cons c text ih =>
    rw [scanNumeral] at scanned
    split at scanned
    · next next step =>
      obtain ⟨rest,later,rfl,known⟩ := ih scanned
      exact ⟨c :: rest,part.continues_cons step later,rfl,by simp [known]⟩
    · next stops =>
      split at scanned
      · cases scanned
        exact whole.elim
      · next accepted =>
        cases scanned
        have mayEnd : part.mayEnd = true := by
          cases part <;> simp_all [NumeralPart.refuses,NumeralPart.mayEnd]
        exact ⟨[],part.continues_nil mayEnd,rfl,by rw [List.append_nil]⟩

-- Lexemes

theorem scanNumeral_lexeme (negative : Bool) {text after : List Char} {found : Token}
    (scanned : scanNumeral .start (if negative then ['-'] else []) text = (found,after))
    (whole : found.IsWhole) : ∃ lexeme : Lexeme,
      (if negative then ['-'] else []) ++ text = lexeme.text ++ after ∧ lexeme.token = found := by
  obtain ⟨rest,continues,rfl,rfl⟩ := scanNumeral_spelled scanned whole
  obtain ⟨digits,fraction,exponent,noLeadingZero,rfl⟩ := continues
  refine ⟨.scalar (.number ⟨negative,digits,noLeadingZero,fraction,exponent⟩),?_,?_⟩
  · rw [← List.append_assoc]
    rfl
  · cases negative <;> rfl

theorem scanToken_spelled {c : Char} {rest after : List Char} {found : Token}
    (scanned : scanToken c rest = (found,after)) (whole : found.IsWhole) :
    ∃ lexeme : Lexeme, c :: rest = lexeme.text ++ after ∧ lexeme.token = found := by
  unfold scanToken at scanned
  split at scanned
  · cases scanned
    exact ⟨.mark .openArray,rfl,rfl⟩
  · cases scanned
    exact ⟨.mark .closeArray,rfl,rfl⟩
  · cases scanned
    exact ⟨.mark .openObject,rfl,rfl⟩
  · cases scanned
    exact ⟨.mark .closeObject,rfl,rfl⟩
  · cases scanned
    exact ⟨.mark .comma,rfl,rfl⟩
  · cases scanned
    exact ⟨.mark .colon,rfl,rfl⟩
  · obtain ⟨rfl,rfl⟩ := scanWord_spelled scanned whole
    exact ⟨.scalar .null,rfl,rfl⟩
  · obtain ⟨rfl,rfl⟩ := scanWord_spelled scanned whole
    exact ⟨.scalar (.bool true),rfl,rfl⟩
  · obtain ⟨rfl,rfl⟩ := scanWord_spelled scanned whole
    exact ⟨.scalar (.bool false),rfl,rfl⟩
  · rw [TextScan.token] at scanned
    split at scanned
    · next ended =>
      cases scanned
      obtain ⟨pieces,rfl,known⟩ := scanText_spelled ended
      refine ⟨.scalar (.string pieces),?_,?_⟩
      · simp [Lexeme.text,Scalar.text,SpelledString.text]
      · rw [known]
        rfl
    · split at scanned <;> (cases scanned; exact whole.elim)
  · exact scanNumeral_lexeme true scanned whole
  · refine scanNumeral_lexeme false ?_ whole
    rw [if_neg Bool.false_ne_true,scanNumeral,NumeralPart.next?]
    split at scanned
    · next zero => rw [if_pos zero]; exact scanned
    · next noZero =>
      rw [if_neg noZero]
      split at scanned
      · next digit => rw [if_pos digit]; exact scanned
      · cases scanned
        exact whole.elim

/-- A text whose tokens are all whole is one of lexemes, with blanks between them. -/
theorem exists_layout {text : List Char} (whole : ∀ token ∈ tokens text, token.IsWhole) :
    ∃ lexemes : List Lexeme, tokens text = lexemes.map Lexeme.token ∧
      Layout Blanks Blanks lexemes text := by
  induction length : text.length using Nat.strongRecOn generalizing text with
  | ind size ih =>
    cases text with
    | nil => exact ⟨[],by rw [tokens]; rfl,.nil .nil⟩
    | cons c rest =>
      by_cases space : isSpace c = true
      · have blank : Blanks [c] := List.forall_mem_singleton.mpr space
        have skipped : tokens (c :: rest) = tokens rest := tokens_blanks blank rest
        rw [skipped] at whole ⊢
        obtain ⟨lexemes,known,layout⟩ := ih rest.length (length ▸ Nat.lt_succ_self _) whole rfl
        exact ⟨lexemes,known,layout.blanks_append blank⟩
      · rcases scanned : scanToken c rest with ⟨found,after⟩
        have shorter := scanToken_length c rest
        rw [scanned] at shorter
        have first := tokens_of_reads ⟨c,rest,rfl,Bool.eq_false_iff.mpr space,scanned⟩
        rw [first] at whole ⊢
        obtain ⟨here,later⟩ := List.forall_mem_cons.mp whole
        obtain ⟨lexeme,spelled,same⟩ := scanToken_spelled scanned here
        obtain ⟨lexemes,known,layout⟩ := ih after.length (length ▸ Nat.lt_succ_of_le shorter) later rfl
        refine ⟨lexeme :: lexemes,by rw [known,← same,List.map_cons],?_⟩
        rw [spelled]
        exact .cons .nil layout

-- Values

/-- A value that was read to its end. -/
def Draft.IsWhole : Draft → Prop
  | .array _ ending | .object _ ending => ending = none
  | .broken _ => False
  | _ => True

theorem nothing_of_cutAll {stop : Stop} {expected : Expected} {frames : List Frame}
    (whole : (cutAll stop expected frames).IsWhole) : ∃ draft, expected = .nothing draft := by
  obtain rfl | ⟨frames,frame,rfl⟩ := List.eq_nil_or_concat frames
  · cases expected with
    | nothing draft => exact ⟨draft,rfl⟩
    | value => exact whole.elim
    | _ => cases whole
  · rw [cutAll,List.concat_eq_append,List.foldl_append] at whole
    cases frame <;> cases whole

theorem exists_advance {expected : Expected} {frames : List Frame} {token : Token} {tokens : List Token}
    {draft : Draft} (read : readFrom expected frames (token :: tokens) = ⟨draft,false⟩)
    (whole : draft.IsWhole) : ∃ next after, advance frames token expected = .ok (next,after) ∧
      readFrom next after tokens = ⟨draft,false⟩ := by
  cases advanced : advance frames token expected with
  | ok progress =>
    rw [readFrom_of_advance advanced] at read
    exact ⟨_,_,rfl,read⟩
  | error stop =>
    by_cases finished : ∃ draft, expected = .nothing draft
    · obtain ⟨draft,rfl⟩ := finished
      rw [readFrom] at read
      cases read
    · rw [readFrom.eq_3 _ _ _ _ (not_exists.mp finished),advanced] at read
      cases read
      exact absurd (nothing_of_cutAll whole) finished

theorem advance_isWhole {expected next : Expected} {frames after : List Frame} {token : Token}
    (advanced : advance frames token expected = .ok (next,after)) : token.IsWhole := by
  cases token with
  | brokenText | broken | stray => cases expected <;> cases advanced
  | _ => trivial

/-- What may still come after a value, by the containers around it. -/
inductive Closes : List Frame → List Lexeme → Prop
  | nil : Closes [] []
  | array {drafts : List Draft} {frames : List Frame} {rest : List Lexeme} (items : List Spelled)
    (later : Closes frames rest) : Closes (.array drafts :: frames)
      ((items.flatMap fun item => .mark .comma :: item.lexemes) ++ .mark .closeArray :: rest)
  | object {drafts : List Member} {key : Option String} {frames : List Frame} {rest : List Lexeme}
    (members : List (SpelledString × Spelled)) (later : Closes frames rest) :
    Closes (.object drafts key :: frames) ((members.flatMap fun member =>
      .mark .comma :: memberPart member.1 member.2.lexemes) ++ .mark .closeObject :: rest)

/-- What may still come, by what is expected next. -/
inductive Completes : Expected → List Frame → List Lexeme → Prop
  | value {frames : List Frame} {rest : List Lexeme} (value : Spelled) (later : Closes frames rest) :
    Completes .value frames (value.lexemes ++ rest)
  | noItem {frames : List Frame} {rest : List Lexeme} (later : Closes frames rest) :
    Completes .firstItem frames (.mark .closeArray :: rest)
  | firstItem {frames : List Frame} {lexemes : List Lexeme}
    (later : Completes .value (.array [] :: frames) lexemes) : Completes .firstItem frames lexemes
  | noMember {frames : List Frame} {rest : List Lexeme} (later : Closes frames rest) :
    Completes .firstKey frames (.mark .closeObject :: rest)
  | firstKey {frames : List Frame} {lexemes : List Lexeme} (later : Completes (.key []) frames lexemes) :
    Completes .firstKey frames lexemes
  | key {members : List Member} {frames : List Frame} {rest : List Lexeme} (key : SpelledString)
    (later : Completes (.colon members key.content) frames rest) :
    Completes (.key members) frames (.scalar (.string key) :: rest)
  | colon {members : List Member} {key : Option String} {frames : List Frame} {rest : List Lexeme}
    (later : Completes .value (.object members key :: frames) rest) :
    Completes (.colon members key) frames (.mark .colon :: rest)
  | afterItem {items drafts : List Draft} {frames : List Frame} {rest : List Lexeme}
    (later : Closes (.array drafts :: frames) rest) : Completes (.afterItem items) frames rest
  | afterMember {members drafts : List Member} {key : Option String} {frames : List Frame}
    {rest : List Lexeme} (later : Closes (.object drafts key :: frames) rest) :
    Completes (.afterMember members) frames rest
  | nothing {draft : Draft} {frames : List Frame} : Completes (.nothing draft) frames []

theorem closes_of_place {draft : Draft} {frames after : List Frame} {next : Expected}
    {rest : List Lexeme} (placed : place draft frames = (next,after)) (later : Completes next after rest) :
    Closes frames rest := by
  cases frames with
  | nil =>
    cases placed
    cases later
    exact .nil
  | cons frame frames =>
    cases frame with
    | array items =>
      cases placed
      cases later with
      | afterItem later =>
        cases later with
        | array items later => exact .array items later
    | object members key =>
      cases placed
      cases later with
      | afterMember later =>
        cases later with
        | object members later => exact .object members later

theorem completes_nextItem {items : List Draft} {frames : List Frame} {rest : List Lexeme}
    (later : Completes .value (.array items :: frames) rest) :
    Completes (.afterItem items) frames (.mark .comma :: rest) := by
  cases later with
  | value item later =>
    cases later with
    | array items later =>
      have closes : Closes (.array [] :: frames) _ := .array (item :: items) later
      rw [List.flatMap_cons,List.append_assoc,List.cons_append] at closes
      exact .afterItem closes

theorem exists_member {members : List Member} {frames : List Frame} {lexemes : List Lexeme}
    (completes : Completes (.key members) frames lexemes) :
    ∃ (key : SpelledString) (value : Spelled) (rest : List Lexeme),
      lexemes = memberPart key value.lexemes ++ rest ∧ Closes (.object members key.content :: frames) rest := by
  cases completes with
  | key key later =>
    cases later with
    | colon later =>
      cases later with
      | value value later => exact ⟨key,value,_,rfl,later⟩

theorem completes_nextMember {members : List Member} {frames : List Frame} {rest : List Lexeme}
    (later : Completes (.key members) frames rest) :
    Completes (.afterMember members) frames (.mark .comma :: rest) := by
  obtain ⟨key,value,rest,rfl,closes⟩ := exists_member later
  cases closes with
  | object members after =>
    have closes : Closes (.object [] none :: frames) _ := .object ((key,value) :: members) after
    rw [List.flatMap_cons,List.append_assoc,List.cons_append] at closes
    exact .afterMember closes

theorem completes_array {frames : List Frame} {rest : List Lexeme}
    (later : Completes .firstItem frames rest) : Completes .value frames (.mark .openArray :: rest) := by
  cases later with
  | noItem later => exact .value (.array []) later
  | firstItem later =>
    cases later with
    | value item later =>
      cases later with
      | array items later =>
        have whole := Completes.value (.array (item :: items)) later
        rw [Spelled.lexemes,Spelled.itemParts_eq_map,List.map_cons,commaSeparated_cons,
          List.flatMap_map] at whole
        simpa using whole

theorem completes_object {frames : List Frame} {rest : List Lexeme}
    (later : Completes .firstKey frames rest) : Completes .value frames (.mark .openObject :: rest) := by
  cases later with
  | noMember later => exact .value (.object []) later
  | firstKey later =>
    obtain ⟨key,value,rest,rfl,closes⟩ := exists_member later
    cases closes with
    | object members after =>
      have whole := Completes.value (.object ((key,value) :: members)) after
      rw [Spelled.lexemes,Spelled.memberParts_eq_map,List.map_cons,commaSeparated_cons,
        List.flatMap_map] at whole
      simpa using whole

theorem startValue_completes {frames after : List Frame} {next : Expected} {lexeme : Lexeme}
    {rest : List Lexeme} (started : startValue frames lexeme.token = .ok (next,after))
    (later : Completes next after rest) : Completes .value frames (lexeme :: rest) := by
  cases lexeme with
  | mark sign =>
    cases sign with
    | openArray =>
      cases started
      exact completes_array later
    | openObject =>
      cases started
      exact completes_object later
    | _ => cases started
  | scalar value =>
    have placed : ∃ draft, place draft frames = (next,after) := by
      cases value <;> exact ⟨_,Except.ok.inj started⟩
    obtain ⟨draft,placed⟩ := placed
    exact .value (.scalar value) (closes_of_place placed later)

theorem startMember_completes {members : List Member} {frames after : List Frame} {next : Expected}
    {lexeme : Lexeme} {rest : List Lexeme}
    (started : startMember members frames lexeme.token = .ok (next,after))
    (later : Completes next after rest) : Completes (.key members) frames (lexeme :: rest) := by
  cases lexeme with
  | mark sign => cases sign <;> cases started
  | scalar value =>
    cases value with
    | string key =>
      cases started
      exact .key key later
    | _ => cases started

theorem eq_mark_of_token {lexeme : Lexeme} (sign : Mark) (same : lexeme.token = sign.token) :
    lexeme = .mark sign := by
  cases lexeme with
  | mark other => cases other <;> cases sign <;> cases same <;> rfl
  | scalar value => cases value <;> cases sign <;> cases same

/-- One step of the reader takes one lexeme of what may still come. -/
theorem advance_completes {expected next : Expected} {frames after : List Frame} {lexeme : Lexeme}
    {rest : List Lexeme} (advanced : advance frames lexeme.token expected = .ok (next,after))
    (later : Completes next after rest) : Completes expected frames (lexeme :: rest) := by
  cases expected with
  | value => exact startValue_completes advanced later
  | firstItem =>
    rw [advance] at advanced
    split at advanced
    · next closes =>
      cases eq_mark_of_token .closeArray closes
      exact .noItem (closes_of_place (Except.ok.inj advanced) later)
    · exact .firstItem (startValue_completes advanced later)
  | firstKey =>
    rw [advance] at advanced
    split at advanced
    · next closes =>
      cases eq_mark_of_token .closeObject closes
      exact .noMember (closes_of_place (Except.ok.inj advanced) later)
    · exact .firstKey (startMember_completes advanced later)
  | key members => exact startMember_completes advanced later
  | colon members key =>
    rw [advance] at advanced
    split at advanced
    · next parts =>
      cases eq_mark_of_token .colon parts
      cases advanced
      exact .colon later
    · cases advanced
  | afterItem items =>
    rw [advance] at advanced
    split at advanced
    · next parts =>
      cases eq_mark_of_token .comma parts
      cases advanced
      exact completes_nextItem later
    · split at advanced
      · next closes =>
        cases eq_mark_of_token .closeArray closes
        have closed : Closes (.array [] :: frames) _ :=
          .array [] (closes_of_place (Except.ok.inj advanced) later)
        exact .afterItem closed
      · cases advanced
  | afterMember members =>
    rw [advance] at advanced
    split at advanced
    · next parts =>
      cases eq_mark_of_token .comma parts
      cases advanced
      exact completes_nextMember later
    · split at advanced
      · next closes =>
        cases eq_mark_of_token .closeObject closes
        have closed : Closes (.object [] none :: frames) _ :=
          .object [] (closes_of_place (Except.ok.inj advanced) later)
        exact .afterMember closed
      · cases advanced
  | nothing draft => cases advanced

theorem completes_of_readFrom {expected : Expected} {frames : List Frame} {lexemes : List Lexeme}
    {draft : Draft} (read : readFrom expected frames (lexemes.map Lexeme.token) = ⟨draft,false⟩)
    (whole : draft.IsWhole) : Completes expected frames lexemes := by
  induction lexemes generalizing expected frames with
  | nil =>
    cases read
    obtain ⟨draft,rfl⟩ := nothing_of_cutAll whole
    exact .nothing
  | cons lexeme lexemes ih =>
    obtain ⟨next,after,advanced,read⟩ := exists_advance read whole
    exact advance_completes advanced (ih read)

theorem isWhole_of_readFrom {expected : Expected} {frames : List Frame} {tokens : List Token}
    {draft : Draft} (read : readFrom expected frames tokens = ⟨draft,false⟩) (whole : draft.IsWhole) :
    ∀ token ∈ tokens, token.IsWhole := by
  induction tokens generalizing expected frames with
  | nil => exact fun _ absent => absurd absent List.not_mem_nil
  | cons token tokens ih =>
    obtain ⟨next,after,advanced,read⟩ := exists_advance read whole
    exact List.forall_mem_cons.mpr ⟨advance_isWhole advanced,ih read⟩

/-- What is read as one whole value, with nothing after it, is the text of a value. -/
theorem exists_spelled {text : List Char} {draft : Draft}
    (read : Document.ofTokens (tokens text) = ⟨draft,false⟩) (whole : draft.IsWhole) :
    ∃ value : Spelled, Layout Blanks Blanks value.lexemes text := by
  obtain ⟨lexemes,known,layout⟩ := exists_layout (isWhole_of_readFrom read whole)
  rw [known] at read
  have completes := completes_of_readFrom read whole
  cases completes with
  | value value closes =>
    cases closes
    rw [List.append_nil] at layout
    exact ⟨value,layout⟩

end SourceAtlas.Json
