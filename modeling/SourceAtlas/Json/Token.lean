import SourceAtlas.Text.Hex
import SourceAtlas.Text.Numeral

/-! The tokens of a JSON text. The text may be malformed: reading stops at the first token that cannot
be completed, and that token tells why. A token that is only passed over is held to fewer rules than
one whose value is wanted, so it may fail in another way. -/
namespace SourceAtlas.Json

/-- A text is malformed, or it ends too early, or it is well formed and says something else than what
is asked for. -/
inductive Fault
  | malformed
  | endOfText
  | unfit
  deriving DecidableEq, Repr

def Fault.message : Fault → String
  | malformed => "malformed text"
  | endOfText => "unexpected end of text"
  | unfit => "value does not fit"

/-- Why reading stops, for a reader that wants the value and for one that passes over it. -/
structure Stop where
  wanted : Fault
  passed : Fault
  deriving DecidableEq, Repr

def Stop.both (fault : Fault) : Stop := ⟨fault, fault⟩

/-- `text none` is a string with an unpaired half of a character in it. `brokenText` and `broken` are
a string and a word or numeral that cannot be completed. No token follows these two or a `stray`
character. -/
inductive Token
  | openArray
  | closeArray
  | openObject
  | closeObject
  | comma
  | colon
  | null
  | bool (value : Bool)
  | number (text : List Char)
  | text (content : Option String)
  | brokenText (stop : Stop)
  | broken (stop : Stop)
  | stray
  deriving DecidableEq, Repr

def isSpace (c : Char) : Bool := c == ' ' || c == '\n' || c == '\t' || c == '\r'

def scanWord (token : Token) : List Char → List Char → Token × List Char
  | [], rest => (token, rest)
  | _ :: _, [] => (.broken (.both .endOfText), [])
  | letter :: letters, c :: rest =>
    if c = letter then scanWord token letters rest else (.broken (.both .malformed), [])

theorem scanWord_length (token : Token) (letters text : List Char) :
    (scanWord token letters text).2.length ≤ text.length := by
  induction letters generalizing text with
  | nil => simp [scanWord]
  | cons letter letters ih =>
    cases text with
    | nil => simp [scanWord]
    | cons c rest =>
      by_cases same : c = letter
      · simp [scanWord, same]
        exact Nat.le_succ_of_le (ih rest)
      · simp [scanWord, same]

inductive NumeralPart
  | start
  | whole
  | wholeEnd
  | fractionStart
  | fraction
  | exponentSign
  | exponentStart
  | exponent

/-- A numeral may end where a digit is not required. -/
def NumeralPart.mayEnd : NumeralPart → Bool
  | start | fractionStart | exponentSign | exponentStart => false
  | whole | wholeEnd | fraction | exponent => true

/-- The next part of a numeral after one more character: `none` if that character does not belong to
the numeral. -/
def NumeralPart.next? (part : NumeralPart) (c : Char) : Option NumeralPart :=
  match part with
  | start => if c == '0' then some wholeEnd else if c.isDigit then some whole else none
  | whole =>
    if c.isDigit then some whole
    else if c == '.' then some fractionStart
    else if Text.Numeral.isExponentMark c then some exponentSign else none
  | wholeEnd =>
    if c == '.' then some fractionStart
    else if Text.Numeral.isExponentMark c then some exponentSign else none
  | fractionStart => if c.isDigit then some fraction else none
  | fraction =>
    if c.isDigit then some fraction
    else if Text.Numeral.isExponentMark c then some exponentSign else none
  | exponentSign =>
    if c == '+' || c == '-' then some exponentStart else if c.isDigit then some exponent else none
  | exponentStart => if c.isDigit then some exponent else none
  | exponent => if c.isDigit then some exponent else none

/-- Whether a numeral that ends before a character is an error: a digit is missing, or follows a
leading zero. -/
def NumeralPart.refuses (part : NumeralPart) (c : Char) : Bool :=
  match part with
  | wholeEnd => c.isDigit
  | part => !part.mayEnd

/-- Reads the rest of a numeral, given what is read of it in reverse. -/
def scanNumeral (part : NumeralPart) (before : List Char) : List Char → Token × List Char
  | [] =>
    if part.mayEnd then (.number before.reverse, []) else (.broken ⟨.endOfText, .malformed⟩, [])
  | c :: rest =>
    match part.next? c with
    | some part => scanNumeral part (c :: before) rest
    | none =>
      if part.refuses c then (.broken (.both .malformed), [])
      else (.number before.reverse, c :: rest)

theorem scanNumeral_length (part : NumeralPart) (before text : List Char) :
    (scanNumeral part before text).2.length ≤ text.length := by
  induction text generalizing part before with
  | nil => unfold scanNumeral; split <;> simp
  | cons c rest ih =>
    unfold scanNumeral
    split
    · exact Nat.le_succ_of_le (ih _ _)
    · split <;> simp

/-- A piece of a string: a character, or a unit of UTF-16 given by its number. -/
inductive Piece
  | character (c : Char)
  | unit (value : Nat)
  deriving DecidableEq, Repr

/-- The pieces of a string up to its closing quote with the text after it, or up to an error. -/
structure TextScan where
  pieces : List Piece
  after : Except Fault (List Char)

def TextScan.push (piece : Piece) (scan : TextScan) : TextScan :=
  { scan with pieces := piece :: scan.pieces }

def TextScan.stop (fault : Fault) : TextScan := ⟨[], .error fault⟩

def hexValue4? (a b c d : Char) : Option Nat := do
  return (((← Text.hexValue? a) * 16 + (← Text.hexValue? b)) * 16 + (← Text.hexValue? c)) * 16 + (← Text.hexValue? d)

/-- The characters that may follow a backslash alone, with what they stand for. -/
def simpleEscape? : Char → Option Char
  | '"' => some '"'
  | '\\' => some '\\'
  | '/' => some '/'
  | 'b' => some '\x08'
  | 'f' => some '\x0c'
  | 'n' => some '\n'
  | 'r' => some '\r'
  | 't' => some '\t'
  | _ => none

def byteCount (text : List Char) : Nat := text.foldl (fun count c => count + c.utf8Size) 0

/-- Scans a string after its opening quote. Four bytes have to follow an escaped unit before their
digits are looked at. -/
def scanText : List Char → TextScan
  | [] => .stop .endOfText
  | '"' :: rest => ⟨[], .ok rest⟩
  | '\\' :: 'u' :: a :: b :: c :: d :: rest =>
    match hexValue4? a b c d with
    | some value => (scanText rest).push (.unit value)
    | none => .stop .malformed
  | '\\' :: 'u' :: rest => .stop (if byteCount rest < 4 then .endOfText else .malformed)
  | '\\' :: e :: rest =>
    match simpleEscape? e with
    | some c => (scanText rest).push (.character c)
    | none => .stop .malformed
  | ['\\'] => .stop .endOfText
  | c :: rest => if c.toNat < 0x20 then .stop .malformed else (scanText rest).push (.character c)

theorem scanText_length {text rest : List Char} (found : (scanText text).after = .ok rest) :
    rest.length ≤ text.length := by
  fun_induction scanText text with
  | case2 =>
    cases found
    exact Nat.le_succ _
  | case3 _ _ _ _ _ _ _ ih | case6 _ _ _ _ _ _ ih | case10 _ _ _ _ _ _ _ _ ih =>
    have shorter := ih found
    simp only [List.length_cons]
    omega
  | _ => simp [TextScan.stop] at found

def isLeading (unit : Nat) : Bool := 0xD800 ≤ unit && unit ≤ 0xDBFF

def isTrailing (unit : Nat) : Bool := 0xDC00 ≤ unit && unit ≤ 0xDFFF

/-- The character that a leading and a trailing unit make together. -/
def pairChar (leading trailing : Nat) : Char :=
  Char.ofNat (0x10000 + (leading - 0xD800) * 0x400 + (trailing - 0xDC00))

/-- The characters of a string. The two halves of a character have to stand together; `ending` is the
error at which the pieces end, if they do not end at the closing quote. -/
def joinPieces (ending : Option Fault) : List Piece → Except Fault (List Char)
  | [] =>
    match ending with
    | none => .ok []
    | some fault => .error fault
  | .character c :: rest => (joinPieces ending rest).map (c :: ·)
  | .unit leading :: .unit trailing :: rest =>
    if isTrailing leading then .error .malformed
    else if isLeading leading then
      if isTrailing trailing then (joinPieces ending rest).map (pairChar leading trailing :: ·)
      else .error .malformed
    else (joinPieces ending (.unit trailing :: rest)).map (Char.ofNat leading :: ·)
  | [.unit unit] =>
    if isTrailing unit then .error .malformed
    else
      match ending with
      | some fault => .error fault
      | none => if isLeading unit then .error .malformed else .ok [Char.ofNat unit]
  | .unit unit :: .character c :: rest =>
    if isTrailing unit ∨ isLeading unit then .error .malformed
    else (joinPieces ending (.character c :: rest)).map (Char.ofNat unit :: ·)

/-- The token of a scanned string, with the text after it. -/
def TextScan.token (scan : TextScan) : Token × List Char :=
  match scan.after with
  | .ok rest => (.text ((joinPieces none scan.pieces).toOption.map String.ofList), rest)
  | .error passed =>
    match joinPieces (some passed) scan.pieces with
    | .ok _ => (.brokenText (.both passed), [])
    | .error wanted => (.brokenText ⟨wanted, passed⟩, [])

def scanToken (c : Char) (rest : List Char) : Token × List Char :=
  match c with
  | '[' => (.openArray, rest)
  | ']' => (.closeArray, rest)
  | '{' => (.openObject, rest)
  | '}' => (.closeObject, rest)
  | ',' => (.comma, rest)
  | ':' => (.colon, rest)
  | 'n' => scanWord .null ['u', 'l', 'l'] rest
  | 't' => scanWord (.bool true) ['r', 'u', 'e'] rest
  | 'f' => scanWord (.bool false) ['a', 'l', 's', 'e'] rest
  | '"' => (scanText rest).token
  | '-' => scanNumeral .start ['-'] rest
  | c =>
    if c == '0' then scanNumeral .wholeEnd [c] rest
    else if c.isDigit then scanNumeral .whole [c] rest
    else (.stray, [])

theorem scanToken_length (c : Char) (rest : List Char) :
    (scanToken c rest).2.length ≤ rest.length := by
  unfold scanToken
  split <;> try exact Nat.le_refl _
  · exact scanWord_length ..
  · exact scanWord_length ..
  · exact scanWord_length ..
  · unfold TextScan.token
    split
    · next found => exact scanText_length found
    · split <;> simp
  · exact scanNumeral_length ..
  · split
    · exact scanNumeral_length ..
    · split
      · exact scanNumeral_length ..
      · simp

def tokens (text : List Char) : List Token :=
  match text with
  | [] => []
  | c :: rest =>
    if isSpace c then tokens rest
    else
      match _step : scanToken c rest with
      | (token, after) => token :: tokens after
termination_by text.length
decreasing_by
  · simp
  · have bound := scanToken_length c rest
    rw [_step] at bound
    exact Nat.lt_succ_of_le bound

end SourceAtlas.Json
