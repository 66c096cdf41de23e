import Mathlib.Data.List.Basic
import SourceAtlas.Json.Token

/-! The lexemes of JSON as its grammar spells them, and texts in which lexemes stand in order with gaps
around them. If no two words, numerals or strings stand side by side, reading such a text gives the
token of each lexeme, whatever blanks are in the gaps. -/
namespace SourceAtlas.Json

-- Spelled lexemes

structure Digits where
  first : Char
  rest : List Char
  decimal : ∀ c ∈ first :: rest, c.isDigit = true

def Digits.text (digits : Digits) : List Char := digits.first :: digits.rest

structure Exponent where
  mark : Char
  isMark : Text.Numeral.isExponentMark mark = true
  sign : Option Char
  isSign : ∀ c ∈ sign, c = '+' ∨ c = '-'
  digits : Digits

def Exponent.text (exponent : Exponent) : List Char :=
  exponent.mark :: (exponent.sign.toList ++ exponent.digits.text)

/-- A numeral. The whole part has no zero before another digit. -/
structure Numeral where
  negative : Bool
  whole : Digits
  noLeadingZero : whole.first = '0' → whole.rest = []
  fraction : Option Digits
  exponent : Option Exponent

namespace Numeral

def fractionText (numeral : Numeral) : List Char :=
  numeral.fraction.elim [] fun digits => '.' :: digits.text

def exponentText (numeral : Numeral) : List Char := numeral.exponent.elim [] Exponent.text

def text (numeral : Numeral) : List Char :=
  (if numeral.negative then ['-'] else []) ++
    (numeral.whole.text ++ (numeral.fractionText ++ numeral.exponentText))

end Numeral

/-- A piece of a string as it is spelled: a character for itself, a letter after a backslash, or a unit
of UTF-16 in hexadecimal digits. -/
inductive SpelledPiece
  | plain (c : Char) (visible : 0x20 ≤ c.toNat) (noQuote : c ≠ '"') (noEscape : c ≠ '\\')
  | escape (letter c : Char) (known : simpleEscape? letter = some c)
  | unit (a b c d : Char) (value : Nat) (hex : hexValue4? a b c d = some value)

namespace SpelledPiece

def text : SpelledPiece → List Char
  | plain c .. => [c]
  | escape letter .. => ['\\',letter]
  | unit a b c d .. => ['\\','u',a,b,c,d]

def piece : SpelledPiece → Piece
  | plain c .. => .character c
  | escape _ c _ => .character c
  | unit _ _ _ _ value _ => .unit value

end SpelledPiece

abbrev SpelledString := List SpelledPiece

namespace SpelledString

def body (string : SpelledString) : List Char := string.flatMap SpelledPiece.text

def text (string : SpelledString) : List Char := '"' :: (string.body ++ ['"'])

/-- What a string says. It says nothing if it has an unpaired half of a character in it. -/
def content (string : SpelledString) : Option String :=
  (joinPieces none (string.map SpelledPiece.piece)).toOption.map String.ofList

end SpelledString

inductive Scalar
  | null
  | bool (value : Bool)
  | number (numeral : Numeral)
  | string (spelled : SpelledString)

namespace Scalar

def text : Scalar → List Char
  | null => ['n','u','l','l']
  | bool true => ['t','r','u','e']
  | bool false => ['f','a','l','s','e']
  | number numeral => numeral.text
  | string spelled => spelled.text

def token : Scalar → Token
  | null => .null
  | bool value => .bool value
  | number numeral => .number numeral.text
  | string spelled => .text spelled.content

end Scalar

inductive Mark
  | openArray
  | closeArray
  | openObject
  | closeObject
  | comma
  | colon
  deriving DecidableEq

namespace Mark

def char : Mark → Char
  | openArray => '['
  | closeArray => ']'
  | openObject => '{'
  | closeObject => '}'
  | comma => ','
  | colon => ':'

def token : Mark → Token
  | openArray => .openArray
  | closeArray => .closeArray
  | openObject => .openObject
  | closeObject => .closeObject
  | comma => .comma
  | colon => .colon

def closes : Mark → Bool
  | closeArray | closeObject => true
  | _ => false

end Mark

inductive Lexeme
  | mark (sign : Mark)
  | scalar (value : Scalar)

namespace Lexeme

def text : Lexeme → List Char
  | mark sign => [sign.char]
  | scalar value => value.text

def token : Lexeme → Token
  | mark sign => sign.token
  | scalar value => value.token

/-- One of two neighbours is a mark, so that no gap is needed between them. -/
def Apart : Lexeme → Lexeme → Prop
  | scalar _, scalar _ => False
  | _, _ => True

end Lexeme

/-- A text of lexemes in order, with a gap before each of them and another one after the last. -/
inductive Layout (gap last : List Char → Prop) : List Lexeme → List Char → Prop
  | nil {after : List Char} (end' : last after) : Layout gap last [] after
  | cons {before text : List Char} {lexeme : Lexeme} {lexemes : List Lexeme} (start : gap before)
    (rest : Layout gap last lexemes text) :
    Layout gap last (lexeme :: lexemes) (before ++ (lexeme.text ++ text))

def Blanks (text : List Char) : Prop := ∀ c ∈ text, isSpace c = true

theorem Blanks.nil : Blanks [] := fun _ absent => absurd absent List.not_mem_nil

-- The characters of lexemes

theorem ne_of_isDigit {c other : Char} (digit : c.isDigit = true) (no : other.isDigit = false) :
    c ≠ other := by
  rintro rfl
  exact Bool.false_ne_true (no.symm.trans digit)

/-- The characters that numerals are spelled with. -/
def InNumeral (c : Char) : Prop := c.isDigit = true ∨ c ∈ ['-','+','.','e','E']

theorem Exponent.inNumeral {exponent : Exponent} {c : Char} (member : c ∈ exponent.text) :
    InNumeral c := by
  rcases List.mem_cons.mp member with rfl | later
  · have isMark := exponent.isMark
    simp only [Text.Numeral.isExponentMark,Bool.or_eq_true,beq_iff_eq] at isMark
    exact .inr (by simp [isMark])
  · rcases List.mem_append.mp later with sign | digit
    · have isSign := exponent.isSign c (Option.mem_toList.mp sign)
      rcases isSign with rfl | rfl <;> exact .inr (by decide)
    · exact .inl (exponent.digits.decimal c digit)

theorem Numeral.inNumeral {numeral : Numeral} {c : Char} (member : c ∈ numeral.text) :
    InNumeral c := by
  simp only [Numeral.text,List.mem_append] at member
  rcases member with sign | whole | fraction | exponent
  · split at sign
    · exact .inr (by simp [List.mem_singleton.mp sign])
    · exact absurd sign List.not_mem_nil
  · exact .inl (numeral.whole.decimal c whole)
  · unfold Numeral.fractionText at fraction
    cases present : numeral.fraction with
    | none => simp [present] at fraction
    | some digits =>
      rw [present,Option.elim_some,List.mem_cons] at fraction
      rcases fraction with rfl | digit
      · exact .inr (by decide)
      · exact .inl (digits.decimal c digit)
  · unfold Numeral.exponentText at exponent
    cases present : numeral.exponent with
    | none => simp [present] at exponent
    | some value =>
      rw [present,Option.elim_some] at exponent
      exact value.inNumeral exponent

theorem InNumeral.bounds {c : Char} (inside : InNumeral c) : 0x2B ≤ c.toNat ∧ c.toNat ≤ 0x65 := by
  rcases inside with digit | other
  · simp only [Char.isDigit,Bool.and_eq_true,decide_eq_true_eq] at digit
    have low : 48 ≤ c.val.toNat := UInt32.le_iff_toNat_le.mp digit.1
    have high : c.val.toNat ≤ 57 := UInt32.le_iff_toNat_le.mp digit.2
    exact ⟨Nat.le_trans (by decide) low,Nat.le_trans high (by decide)⟩
  · have signs : ∀ sign ∈ ['-','+','.','e','E'], 0x2B ≤ sign.toNat ∧ sign.toNat ≤ 0x65 := by simp
    exact signs c other

theorem InNumeral.ne {c other : Char} (inside : InNumeral c) (noDigit : other.isDigit = false)
    (absent : other ∉ ['-','+','.','e','E']) : c ≠ other := by
  rintro rfl
  rcases inside with digit | member
  · exact Bool.false_ne_true (noDigit.symm.trans digit)
  · exact absent member

-- Strings

theorem hexDigits_of_hexValue4? {a b c d : Char} {value : Nat} (hex : hexValue4? a b c d = some value) :
    (Text.hexValue? a).isSome = true ∧ (Text.hexValue? b).isSome = true ∧
      (Text.hexValue? c).isSome = true ∧ (Text.hexValue? d).isSome = true := by
  unfold hexValue4? at hex
  cases first : Text.hexValue? a <;> cases second : Text.hexValue? b <;>
    cases third : Text.hexValue? c <;> cases fourth : Text.hexValue? d <;> simp_all

theorem simpleEscape?_ne {letter c : Char} (known : simpleEscape? letter = some c) : letter ≠ 'u' := by
  rintro rfl
  simp [simpleEscape?] at known

theorem scanText_unit {a b c d : Char} {value : Nat} (hex : hexValue4? a b c d = some value)
    (rest : List Char) :
    scanText ('\\' :: 'u' :: a :: b :: c :: d :: rest) = (scanText rest).push (.unit value) := by
  rw [scanText,hex]

theorem scanText_escape {letter c : Char} (known : simpleEscape? letter = some c) (rest : List Char) :
    scanText ('\\' :: letter :: rest) = (scanText rest).push (.character c) := by
  have other := simpleEscape?_ne known
  rw [scanText.eq_5 letter rest (fun _ _ _ _ _ same _ => other same) other,known]

theorem scanText_plain {c : Char} (visible : 0x20 ≤ c.toNat) (noQuote : c ≠ '"') (noEscape : c ≠ '\\')
    (rest : List Char) : scanText (c :: rest) = (scanText rest).push (.character c) := by
  rw [scanText.eq_7 c rest noQuote (fun _ _ _ _ _ same _ => noEscape same)
    (fun _ same _ => noEscape same) (fun _ _ same _ => noEscape same) (fun same _ => noEscape same),
    if_neg (Nat.not_lt.mpr visible)]

theorem scanText_body (pieces : SpelledString) (rest : List Char) :
    scanText (pieces.body ++ '"' :: rest) = ⟨pieces.map SpelledPiece.piece,.ok rest⟩ := by
  induction pieces with
  | nil => rw [SpelledString.body,List.flatMap_nil,List.nil_append,scanText]; rfl
  | cons piece pieces ih =>
    rw [SpelledString.body,List.flatMap_cons,List.append_assoc]
    cases piece with
    | plain c visible noQuote noEscape =>
      exact (scanText_plain visible noQuote noEscape _).trans (congrArg _ ih)
    | escape letter c known => exact (scanText_escape known _).trans (congrArg _ ih)
    | unit a b c d value hex => exact (scanText_unit hex _).trans (congrArg _ ih)

-- Numerals

def Ends (rest : List Char) : Prop :=
  ∀ c ∈ rest.head?, c.isDigit = false ∧ c ≠ '.' ∧ Text.Numeral.isExponentMark c = false

theorem scanNumeral_digits {part : NumeralPart} (stays : ∀ c, c.isDigit = true → part.next? c = some part)
    {digits : List Char} (decimal : ∀ c ∈ digits, c.isDigit = true) (before rest : List Char) :
    scanNumeral part before (digits ++ rest) = scanNumeral part (digits.reverse ++ before) rest := by
  induction digits generalizing before with
  | nil => rfl
  | cons c digits ih =>
    obtain ⟨digit,later⟩ := List.forall_mem_cons.mp decimal
    rw [List.cons_append,scanNumeral,stays c digit]
    simp only
    rw [ih later,List.reverse_cons,List.append_assoc,List.singleton_append]

theorem scanNumeral_end {part : NumeralPart} (mayEnd : part.mayEnd = true) {rest : List Char}
    (ends : Ends rest) (before : List Char) :
    scanNumeral part before rest = (.number before.reverse,rest) := by
  cases rest with
  | nil => rw [scanNumeral,if_pos mayEnd]
  | cons c rest =>
    obtain ⟨noDigit,noPoint,noMark⟩ := ends c rfl
    have stops : part.next? c = none ∧ part.refuses c = false := by
      cases part <;> simp_all [NumeralPart.mayEnd,NumeralPart.next?,NumeralPart.refuses]
    rw [scanNumeral,stops.1]
    simp [stops.2]

def NumeralPart.beforeExponent : NumeralPart → Bool
  | whole | wholeEnd | fraction => true
  | _ => false

theorem next?_exponentMark {part : NumeralPart} (before : part.beforeExponent = true) {c : Char}
    (isMark : Text.Numeral.isExponentMark c = true) : part.next? c = some .exponentSign := by
  have noDigit : c.isDigit = false ∧ c ≠ '.' := by
    simp only [Text.Numeral.isExponentMark,Bool.or_eq_true,beq_iff_eq] at isMark
    rcases isMark with rfl | rfl <;> decide
  cases part <;> simp_all [NumeralPart.beforeExponent,NumeralPart.next?]

theorem scanNumeral_exponentDigits {part : NumeralPart}
    (begins : ∀ c, c.isDigit = true → part.next? c = some .exponent) (digits : Digits)
    {rest : List Char} (ends : Ends rest) (before : List Char) :
    scanNumeral part before (digits.text ++ rest) =
      (.number (before.reverse ++ digits.text),rest) := by
  obtain ⟨digit,later⟩ := List.forall_mem_cons.mp digits.decimal
  have stays (c : Char) (digit : c.isDigit = true) :
      NumeralPart.exponent.next? c = some .exponent := by simp [NumeralPart.next?,digit]
  rw [Digits.text,List.cons_append,scanNumeral,begins _ digit]
  simp only
  rw [scanNumeral_digits stays later,scanNumeral_end rfl ends]
  simp

theorem scanNumeral_exponent {part : NumeralPart} (before : part.beforeExponent = true)
    (numeral : Numeral) {rest : List Char} (ends : Ends rest) (done : List Char) :
    scanNumeral part done (numeral.exponentText ++ rest) =
      (.number (done.reverse ++ numeral.exponentText),rest) := by
  unfold Numeral.exponentText
  cases numeral.exponent with
  | none =>
    have mayEnd : part.mayEnd = true := by
      cases part <;> simp_all [NumeralPart.beforeExponent,NumeralPart.mayEnd]
    simp [scanNumeral_end mayEnd ends]
  | some exponent =>
    rw [Option.elim_some,Exponent.text,List.cons_append,scanNumeral,
      next?_exponentMark before exponent.isMark]
    simp only
    cases signed : exponent.sign with
    | none =>
      rw [Option.toList_none,List.nil_append,scanNumeral_exponentDigits _ _ ends]
      · simp
      · intro c digit
        have noPlus : c ≠ '+' := ne_of_isDigit digit rfl
        have noMinus : c ≠ '-' := ne_of_isDigit digit rfl
        simp [NumeralPart.next?,noPlus,noMinus,digit]
    | some sign =>
      have isSign := exponent.isSign sign signed
      have next : NumeralPart.exponentSign.next? sign = some .exponentStart := by
        rcases isSign with rfl | rfl <;> rfl
      rw [Option.toList_some,List.singleton_append,List.cons_append,scanNumeral,next]
      simp only
      rw [scanNumeral_exponentDigits _ _ ends]
      · simp
      · intro c digit
        simp [NumeralPart.next?,digit]

theorem scanNumeral_fraction {part : NumeralPart} (whole : part = .whole ∨ part = .wholeEnd)
    (numeral : Numeral) {rest : List Char} (ends : Ends rest) (done : List Char) :
    scanNumeral part done (numeral.fractionText ++ (numeral.exponentText ++ rest)) =
      (.number (done.reverse ++ (numeral.fractionText ++ numeral.exponentText)),rest) := by
  have before : part.beforeExponent = true := by rcases whole with rfl | rfl <;> rfl
  have point : part.next? '.' = some .fractionStart := by rcases whole with rfl | rfl <;> rfl
  unfold Numeral.fractionText
  cases numeral.fraction with
  | none => exact scanNumeral_exponent before numeral ends done
  | some digits =>
    obtain ⟨digit,later⟩ := List.forall_mem_cons.mp digits.decimal
    have stays (c : Char) (digit : c.isDigit = true) :
        NumeralPart.fraction.next? c = some .fraction := by simp [NumeralPart.next?,digit]
    have begins : NumeralPart.fractionStart.next? digits.first = some .fraction := by
      simp [NumeralPart.next?,digit]
    rw [Option.elim_some,List.cons_append,scanNumeral,point]
    simp only
    rw [Digits.text,List.cons_append,scanNumeral,begins]
    simp only
    rw [scanNumeral_digits stays later,scanNumeral_exponent rfl numeral ends]
    simp

theorem scanNumeral_whole (numeral : Numeral) {rest : List Char} (ends : Ends rest) (before : List Char) :
    scanNumeral (if numeral.whole.first = '0' then .wholeEnd else .whole)
        (numeral.whole.first :: before)
        (numeral.whole.rest ++ (numeral.fractionText ++ (numeral.exponentText ++ rest))) =
      (.number (before.reverse ++
        (numeral.whole.text ++ (numeral.fractionText ++ numeral.exponentText))),rest) := by
  split
  · next zero =>
    rw [numeral.noLeadingZero zero,List.nil_append,scanNumeral_fraction (.inr rfl) numeral ends,
      Digits.text,numeral.noLeadingZero zero]
    simp
  · have stays (c : Char) (digit : c.isDigit = true) :
        NumeralPart.whole.next? c = some .whole := by simp [NumeralPart.next?,digit]
    have later := (List.forall_mem_cons.mp numeral.whole.decimal).2
    rw [scanNumeral_digits stays later,scanNumeral_fraction (.inl rfl) numeral ends,Digits.text]
    simp

theorem scanToken_digit {c : Char} (digit : c.isDigit = true) (rest : List Char) :
    scanToken c rest = scanNumeral (if c = '0' then .wholeEnd else .whole) [c] rest := by
  unfold scanToken
  split <;> try exact absurd digit (by decide)
  by_cases zero : c = '0'
  · simp [zero]
  · simp [zero,digit]

-- Tokens

def Reads (text : List Char) (token : Token) (rest : List Char) : Prop :=
  ∃ c after, text = c :: after ∧ isSpace c = false ∧ scanToken c after = (token,rest)

theorem tokens_of_reads {text rest : List Char} {token : Token} (reads : Reads text token rest) :
    tokens text = token :: tokens rest := by
  obtain ⟨c,after,rfl,solid,scanned⟩ := reads
  rw [tokens,if_neg (by simp [solid])]
  split
  next token' rest' step =>
  cases scanned.symm.trans step
  rfl

theorem tokens_blanks {blanks : List Char} (blank : Blanks blanks) (rest : List Char) :
    tokens (blanks ++ rest) = tokens rest := by
  induction blanks with
  | nil => rfl
  | cons c blanks ih =>
    obtain ⟨here,later⟩ := List.forall_mem_cons.mp blank
    rw [List.cons_append,tokens,if_pos here,ih later]

theorem isSpace_eq_false {c : Char} (digit : c.isDigit = true) : isSpace c = false := by
  have other (d : Char) (no : d.isDigit = false) : (c == d) = false :=
    beq_eq_false_iff_ne.mpr (ne_of_isDigit digit no)
  simp [isSpace,other ' ' rfl,other '\n' rfl,other '\t' rfl,other '\r' rfl]

theorem Numeral.reads (numeral : Numeral) {rest : List Char} (ends : Ends rest) :
    Reads (numeral.text ++ rest) (.number numeral.text) rest := by
  have digit := numeral.whole.decimal _ List.mem_cons_self
  let later := numeral.whole.rest ++ (numeral.fractionText ++ (numeral.exponentText ++ rest))
  cases negative : numeral.negative with
  | true =>
    have begins : NumeralPart.start.next? numeral.whole.first =
        some (if numeral.whole.first = '0' then .wholeEnd else .whole) := by
      by_cases zero : numeral.whole.first = '0'
      · simp [NumeralPart.next?,zero]
      · simp [NumeralPart.next?,zero,digit]
    refine ⟨'-',numeral.whole.first :: later,?_,rfl,?_⟩
    · simp [Numeral.text,negative,Digits.text,later]
    · change scanNumeral .start ['-'] (numeral.whole.first :: later) = _
      rw [scanNumeral,begins]
      simp only [later]
      rw [scanNumeral_whole numeral ends,Numeral.text,negative]
      rfl
  | false =>
    refine ⟨numeral.whole.first,later,?_,isSpace_eq_false digit,?_⟩
    · simp [Numeral.text,negative,Digits.text,later]
    · rw [scanToken_digit digit,scanNumeral_whole numeral ends,Numeral.text,negative]
      rfl

theorem SpelledString.reads (pieces : SpelledString) (rest : List Char) :
    Reads (pieces.text ++ rest) (.text pieces.content) rest := by
  refine ⟨'"',pieces.body ++ '"' :: rest,by simp [SpelledString.text],rfl,?_⟩
  change (scanText (pieces.body ++ '"' :: rest)).token = _
  rw [scanText_body]
  rfl

theorem Lexeme.reads (lexeme : Lexeme) {rest : List Char}
    (ends : ∀ value, lexeme = .scalar value → Ends rest) :
    Reads (lexeme.text ++ rest) lexeme.token rest := by
  cases lexeme with
  | mark sign => cases sign <;> exact ⟨_,rest,rfl,rfl,rfl⟩
  | scalar value =>
    cases value with
    | null => exact ⟨_,_,rfl,rfl,by simp [scanToken,scanWord,Lexeme.token,Scalar.token]⟩
    | bool value =>
      cases value <;> exact ⟨_,_,rfl,rfl,by simp [scanToken,scanWord,Lexeme.token,Scalar.token]⟩
    | number numeral => exact numeral.reads (ends _ rfl)
    | string pieces => exact pieces.reads rest

-- Layouts

theorem ends_of_blanks {c : Char} (space : isSpace c = true) (rest : List Char) : Ends (c :: rest) := by
  intro d same
  cases Option.some.inj same
  simp only [isSpace,Bool.or_eq_true,beq_iff_eq] at space
  rcases space with ((rfl | rfl) | rfl) | rfl <;> decide

theorem Layout.ends {lexemes : List Lexeme} {text : List Char}
    (layout : Layout Blanks Blanks lexemes text) (marked : ∀ value, lexemes.head? ≠ some (.scalar value)) :
    Ends text := by
  cases layout with
  | nil blank =>
    cases text with
    | nil => exact fun c absent => absurd absent (by simp)
    | cons c rest => exact ends_of_blanks (blank c List.mem_cons_self) rest
  | @cons before text lexeme lexemes start _ =>
    cases before with
    | cons c rest => exact ends_of_blanks (start c List.mem_cons_self) _
    | nil =>
      cases lexeme with
      | scalar value => exact absurd rfl (marked value)
      | mark sign =>
        intro c same
        cases Option.some.inj same
        cases sign <;> decide

/-- Reading a text of lexemes gives their tokens, whatever blanks are between them. -/
theorem Layout.tokens_eq {lexemes : List Lexeme} {text : List Char}
    (layout : Layout Blanks Blanks lexemes text) (apart : lexemes.IsChain Lexeme.Apart) :
    tokens text = lexemes.map Lexeme.token := by
  induction layout with
  | nil blank =>
    have read := tokens_blanks blank []
    rwa [List.append_nil,tokens] at read
  | @cons before text lexeme lexemes start rest ih =>
    have ends (value : Scalar) (isScalar : lexeme = .scalar value) : Ends text := by
      subst isScalar
      apply rest.ends
      rintro other first
      cases lexemes with
      | nil => simp at first
      | cons next lexemes =>
        cases Option.some.inj first
        exact (List.isChain_cons_cons.mp apart).1
    rw [tokens_blanks start,tokens_of_reads (lexeme.reads ends),ih apart.of_cons]
    rfl

end SourceAtlas.Json
