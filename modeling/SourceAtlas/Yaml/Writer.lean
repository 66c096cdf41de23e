import SourceAtlas.Yaml.Character
import SourceAtlas.Yaml.Implicit

/-! Writing texts as YAML scalars: plain where this reads back as the text, else in single quotes, as a
literal block if there are line feeds, and in double quotes where nothing else is possible. -/
namespace SourceAtlas.Yaml

/-- Characters that are written as they are. -/
def isPrintable (c : Char) : Bool :=
  let n := c.toNat
  n == 0x0A || (0x20 ≤ n && n ≤ 0x7E) || (0xA0 ≤ n && n ≤ 0xFFFD && n != 0xFEFF) || 0x10000 ≤ n

/-- Whether nothing, a blank or a line break comes next. -/
def isGapAhead : List Char → Bool
  | [] => true
  | c :: _ => isBlank c || isBreak c

/-- Whether a text starts like something else than a plain scalar. -/
def startsSpecial : List Char → Bool
  | '-' :: '-' :: '-' :: _ | '.' :: '.' :: '.' :: _ => true
  | c :: rest =>
    ['#', ',', '[', ']', '{', '}', '&', '*', '!', '|', '>', '\x27', '"', '%', '@', '\x60'].contains c ||
      (['-', '?', ':'].contains c && isGapAhead rest)
  | [] => false

/-- Whether a text has a colon before a gap, or a number sign after one. -/
def hasInnerIndicator : (previous : Char) → List Char → Bool
  | _, [] => false
  | previous, c :: rest =>
    (c == ':' && isGapAhead rest) || (c == '#' && (isBlank previous || isBreak previous)) ||
      hasInnerIndicator c rest

def anyPair (condition : Char → Char → Bool) : List Char → Bool
  | a :: b :: rest => condition a b || anyPair condition (b :: rest)
  | _ => false

def hasBreakBeforeSpace (text : List Char) : Bool := anyPair (fun a b => isBreak a && b == ' ') text

def hasSpaceBeforeBreak (text : List Char) : Bool := anyPair (fun a b => a == ' ' && isBreak b) text

/-- Whether a text needs escapes, or has blanks that only double quotes keep. -/
def needsDouble (text : List Char) : Bool :=
  !text.all isPrintable || hasSpaceBeforeBreak text

def isSpaceOrBreak (c : Char) : Bool := c == ' ' || isBreak c

def mayBePlain (text : List Char) : Bool :=
  !needsDouble text && !text.any isBreak && !text.head?.any isSpaceOrBreak &&
    !text.getLast?.any isSpaceOrBreak && !startsSpecial text &&
    !(match text with
      | [] => false
      | c :: rest => hasInnerIndicator c rest)

def mayBeSingle (text : List Char) : Bool := !needsDouble text && !hasBreakBeforeSpace text

def mayBeLiteral (text : List Char) : Bool := !needsDouble text && text.getLast? != some ' '

/-- The indentation of what is written below a key or beside a dash. -/
def indentation : List Char := [' ', ' ']

/-- Writes the inside of single quotes. A line starts with the indentation; `atStart` says that a line
break was written last. -/
def singleBody (atStart : Bool) : List Char → List Char
  | [] => if atStart then indentation else []
  | c :: rest =>
    if isBreak c then c :: singleBody true rest
    else
      (if atStart then indentation else []) ++ (if c = '\x27' then ['\x27', '\x27'] else [c]) ++
        singleBody false rest

def writeSingle (text : List Char) : List Char := '\x27' :: singleBody false text ++ ['\x27']

/-- The letter that stands for a character after a backslash. -/
def escapeLetter? : Char → Option Char
  | '\x00' => some '0'
  | '\x07' => some 'a'
  | '\x08' => some 'b'
  | '\t' => some 't'
  | '\n' => some 'n'
  | '\x0b' => some 'v'
  | '\x0c' => some 'f'
  | '\r' => some 'r'
  | '\x1b' => some 'e'
  | '"' => some '"'
  | '\\' => some '\\'
  | '\x85' => some 'N'
  | '\u2028' => some 'L'
  | '\u2029' => some 'P'
  | _ => none

def escapeNumber (n : Nat) : List Char :=
  if n ≤ 0xFF then 'x' :: Text.upperHex n 2
  else if n ≤ 0xFFFF then 'u' :: Text.upperHex n 4
  else 'U' :: Text.upperHex n 8

def doubleChar (c : Char) : List Char :=
  match escapeLetter? c with
  | some letter => ['\\', letter]
  | none => if isPrintable c then [c] else '\\' :: escapeNumber c.toNat

def writeDouble (text : List Char) : List Char := '"' :: text.flatMap doubleChar ++ ['"']

/-- Writes the lines of a literal block, each with its indentation; empty lines have none. -/
def literalBody (atStart : Bool) : List Char → List Char
  | [] => []
  | c :: rest =>
    if isBreak c then c :: literalBody true rest
    else (if atStart then indentation else []) ++ c :: literalBody false rest

/-- The sign that says what becomes of the line breaks at the end of a literal block. -/
def chompingSign (text : List Char) : List Char :=
  match text.reverse with
  | [] => ['-']
  | last :: before =>
    if !isBreak last then ['-']
    else if before.head?.all isBreak then ['+']
    else []

def writeLiteral (text : List Char) : List Char :=
  '|' :: (if text.head?.any isSpaceOrBreak then ['2'] else []) ++ chompingSign text ++
    '\n' :: literalBody true text

def writeText (text : String) : List Char :=
  let chars := text.toList
  if chars.contains '\n' then if mayBeLiteral chars then writeLiteral chars else writeDouble chars
  else if !isAmbiguous text && mayBePlain chars then chars
  else if mayBeSingle chars then writeSingle chars
  else writeDouble chars

/-- Ends the line, unless it is ended already. -/
def endLine (written : List Char) : List Char :=
  if written.getLast?.any isBreak then written else written ++ ['\n']

def writeMember (key : String) (value : List Char) : List Char :=
  endLine (key.toList ++ ':' :: ' ' :: value)

/-- A key with a list of texts, one on a line. -/
def writeList (key : String) (texts : List String) : List Char :=
  match texts with
  | [] => writeMember key ['[', ']']
  | texts => key.toList ++ ':' :: '\n' :: texts.flatMap fun text => endLine ('-' :: ' ' :: writeText text)

end SourceAtlas.Yaml
