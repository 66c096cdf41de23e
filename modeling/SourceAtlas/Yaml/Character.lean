/-! The characters of a YAML text with their places in it. -/
namespace SourceAtlas.Yaml

def isBreak (c : Char) : Bool :=
  c == '\n' || c == '\r' || c == '\x85' || c == '\u2028' || c == '\u2029'

def isBlank (c : Char) : Bool := c == ' ' || c == '\t'

/-- The characters of anchors, tag handles and directive names. -/
def isWordChar (c : Char) : Bool := c.isAlphanum || c == '_' || c == '-'

/-- The characters that may occur in a YAML text: no controls but tabs and line breaks. -/
def isAllowed (c : Char) : Bool :=
  let n := c.toNat
  n == 0x09 || n == 0x0A || n == 0x0D || (0x20 ≤ n && n ≤ 0x7E) || n == 0x85 ||
    (0xA0 ≤ n && n ≤ 0xFFFD) || 0x10000 ≤ n

/-- The byte order mark, which may stand at the start of a line. -/
def orderMark : Char := '\ufeff'

/-- A character with its place. Lines and columns are counted from 0 in characters, and `index` is the
number of bytes before it. -/
structure Spot where
  char : Char
  index : Nat
  line : Nat
  column : Nat
  deriving DecidableEq, Repr

/-- How a line break is read: the separators of lines and paragraphs stand for themselves. -/
def breakChar (c : Char) : Char := if c == '\u2028' || c == '\u2029' then c else '\n'

/-- The spots of a text from a place on. A carriage return with a line feed is one line break. -/
def spotsFrom (index line column : Nat) : List Char → List Spot
  | [] => []
  | '\r' :: '\n' :: rest => ⟨'\n', index, line, column⟩ :: spotsFrom (index + 2) (line + 1) 0 rest
  | c :: rest =>
    let next := index + c.utf8Size
    if isBreak c then ⟨breakChar c, index, line, column⟩ :: spotsFrom next (line + 1) 0 rest
    else ⟨c, index, line, column⟩ :: spotsFrom next line (column + 1) rest

/-- The spots of a text. A text with a character that must not occur has none. -/
def spots? (text : List Char) : Option (List Spot) :=
  if text.all isAllowed then some (spotsFrom 0 0 0 text) else none

namespace Spot

def breaks (spot : Spot) : Bool := isBreak spot.char

def blank (spot : Spot) : Bool := isBlank spot.char

/-- Whether a byte order mark stands here at the start of a line. -/
def marksOrder (spot : Spot) : Bool := spot.column == 0 && spot.char == orderMark

/-- Blanks and line breaks. -/
def white (spot : Spot) : Bool := spot.blank || spot.breaks

end Spot

/-- Whether a word ends here: at a blank, a line break or the end of the text. -/
def endsWord : List Spot → Bool
  | [] => true
  | spot :: _ => spot.white

def endsLine : List Spot → Bool
  | [] => true
  | spot :: _ => spot.breaks

def startsWith (among : List Char) : List Spot → Bool
  | [] => false
  | spot :: _ => among.contains spot.char

/-- Three equal characters at the start of a line with nothing directly after them. -/
def isMark (c : Char) : List Spot → Bool
  | a :: b :: d :: rest =>
    a.column == 0 && a.char == c && b.char == c && d.char == c && endsWord rest
  | _ => false

def isDocumentMark (spots : List Spot) : Bool := isMark '-' spots || isMark '.' spots

def dropBlanks (spots : List Spot) : List Spot := spots.dropWhile Spot.blank

/-- Drops blanks, a comment after them, and the line break; anything else on the line is an error. -/
def finishLine? (spots : List Spot) : Option (List Spot) :=
  let rest := dropBlanks spots
  let rest := if startsWith ['#'] rest then rest.dropWhile fun spot => !spot.breaks else rest
  if endsLine rest then some (rest.drop 1) else none

end SourceAtlas.Yaml
