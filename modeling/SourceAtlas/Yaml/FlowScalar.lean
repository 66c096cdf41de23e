import SourceAtlas.Text.Hex
import SourceAtlas.Yaml.Character

/-! Plain and quoted scalars. Line breaks within them are folded: a single one is a space, and of
several the first is dropped. -/
namespace SourceAtlas.Yaml

/-- The blanks and line breaks since the last other character, latest first. In a `broken` gap blanks do
not count; `first` is its first line break, unless that one is escaped. -/
structure Gap where
  blanks : List Char
  broken : Bool
  first : Option Char
  further : List Char
  deriving DecidableEq, Repr

namespace Gap

def none : Gap := ⟨[], false, .none, []⟩

def escapedBreak : Gap := ⟨[], true, .none, []⟩

def add (gap : Gap) (c : Char) : Gap :=
  if isBreak c then
    if gap.broken then { gap with further := c :: gap.further } else ⟨[], true, some c, []⟩
  else if gap.broken then gap
  else { gap with blanks := c :: gap.blanks }

def text (gap : Gap) : List Char :=
  if gap.broken then
    match gap.first with
    | some '\n' => if gap.further = [] then [' '] else gap.further.reverse
    | some c => c :: gap.further.reverse
    | .none => gap.further.reverse
  else gap.blanks.reverse

/-- Appends a gap to a text that is given in reverse. -/
def appendTo (gap : Gap) (before : List Char) : List Char := gap.text.reverse ++ before

def isEmpty (gap : Gap) : Bool := gap.blanks.isEmpty && !gap.broken

end Gap

/-- A scalar that has been read, whether line breaks follow it, and the rest of the text. -/
structure Scanned where
  text : List Char
  broken : Bool
  rest : List Spot

def flowIndicators : List Char := [',', '[', ']', '{', '}']

/-- Whether a plain scalar ends before a colon or bracket here. -/
def endsPlain (inFlow : Bool) (spot : Spot) (rest : List Spot) : Bool :=
  (spot.char == ':' && endsWord rest) || (inFlow && flowIndicators.contains spot.char)

def isAmbiguousColon (inFlow : Bool) (spot : Spot) (rest : List Spot) : Bool :=
  inFlow && spot.char == ':' && startsWith ('?' :: flowIndicators) rest

/-- Whether a plain scalar ends before a word here: at a mark between documents, a comment, or less
indentation than `indent`. -/
def endsBeforeWord (inFlow : Bool) (indent : Nat) (spots : List Spot) : Bool :=
  isDocumentMark spots || startsWith ['#'] spots ||
    (!inFlow && spots.head?.any fun spot => decide (spot.column < indent))

/-- Reads a plain scalar on from what is read of it, in reverse, and the gap after that. -/
def plainFrom (inFlow : Bool) (indent : Nat) (before : List Char) (gap : Gap) :
    List Spot → Option Scanned
  | [] => some ⟨before.reverse, gap.broken, []⟩
  | spot :: rest =>
    if spot.white then
      if spot.char == '\t' && gap.broken && spot.column < indent then none
      else plainFrom inFlow indent before (gap.add spot.char) rest
    else if !gap.isEmpty && endsBeforeWord inFlow indent (spot :: rest) then
      some ⟨before.reverse, gap.broken, spot :: rest⟩
    else if isAmbiguousColon inFlow spot rest then none
    else if endsPlain inFlow spot rest then some ⟨before.reverse, gap.broken, spot :: rest⟩
    else plainFrom inFlow indent (spot.char :: gap.appendTo before) .none rest

def singleQuote : Char := '\x27'

/-- Reads a scalar in single quotes, in which a quote is written twice. `quoted` says that the spot
before is a quote which may be the first of two. -/
def singleFrom (before : List Char) (gap : Gap) (quoted : Bool) : List Spot → Option Scanned
  | [] => if quoted then some ⟨before.reverse, false, []⟩ else none
  | spot :: rest =>
    if quoted then
      if spot.char == singleQuote then singleFrom (singleQuote :: before) .none false rest
      else some ⟨before.reverse, false, spot :: rest⟩
    else if isDocumentMark (spot :: rest) then none
    else if spot.white then singleFrom before (gap.add spot.char) false rest
    else if spot.char == singleQuote then singleFrom (gap.appendTo before) .none true rest
    else singleFrom (spot.char :: gap.appendTo before) .none false rest

def escape? : Char → Option Char
  | '0' => some '\x00'
  | 'a' => some '\x07'
  | 'b' => some '\x08'
  | 't' | '\t' => some '\t'
  | 'n' => some '\n'
  | 'v' => some '\x0b'
  | 'f' => some '\x0c'
  | 'r' => some '\r'
  | 'e' => some '\x1b'
  | ' ' => some ' '
  | '"' => some '"'
  | '/' => some '/'
  | '\\' => some '\\'
  | 'N' => some '\x85'
  | '_' => some '\xa0'
  | 'L' => some '\u2028'
  | 'P' => some '\u2029'
  | _ => none

/-- How many hexadecimal digits follow a character after a backslash. -/
def escapeDigits? : Char → Option Nat
  | 'x' => some 2
  | 'u' => some 4
  | 'U' => some 8
  | _ => none

/-- The character with a number, if there is one. -/
def charOf? (n : Nat) : Option Char := if n.isValidChar then some (Char.ofNat n) else none

/-- How the next character in double quotes is read: for itself, after a backslash, or as one of
`more + 1` digits of a number that starts with `value`. -/
inductive Escape
  | none
  | started
  | digits (more value : Nat)

def doubleFrom (before : List Char) (gap : Gap) (escape : Escape) : List Spot → Option Scanned
  | [] => none
  | spot :: rest =>
    match escape with
    | .digits more value =>
      match Text.hexValue? spot.char with
      | none => none
      | some digit =>
        let value := 16 * value + digit
        match more with
        | more + 1 => doubleFrom before .none (.digits more value) rest
        | 0 =>
          match charOf? value with
          | none => none
          | some c => doubleFrom (c :: before) .none .none rest
    | .started =>
      if spot.breaks then doubleFrom before .escapedBreak .none rest
      else
        match escape? spot.char, escapeDigits? spot.char with
        | some c, _ => doubleFrom (c :: before) .none .none rest
        | none, some count => doubleFrom before .none (.digits (count - 1) 0) rest
        | none, none => none
    | .none =>
      if isDocumentMark (spot :: rest) then none
      else if spot.white then doubleFrom before (gap.add spot.char) .none rest
      else if spot.char == '"' then some ⟨(gap.appendTo before).reverse, false, rest⟩
      else if spot.char == '\\' then doubleFrom (gap.appendTo before) .none .started rest
      else doubleFrom (spot.char :: gap.appendTo before) .none .none rest

end SourceAtlas.Yaml
