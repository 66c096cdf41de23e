import SourceAtlas.Text.Hex
import SourceAtlas.Text.Numeral

/-! Plain scalars that are read as something else than text: the null, the truth values, and numbers. -/
namespace SourceAtlas.Yaml

open Text

def isNull (text : String) : Bool := ["null", "Null", "NULL", "~"].contains text

def truthValue? (text : String) : Option Bool :=
  if ["true", "True", "TRUE"].contains text then some true
  else if ["false", "False", "FALSE"].contains text then some false
  else none

/-- A text without one sign at its start. -/
def unsigned : List Char → List Char
  | '+' :: rest | '-' :: rest => rest
  | text => text

def hasSign (text : List Char) : Bool := text.head? == some '+' || text.head? == some '-'

/-- Digits with a needless zero before them, which are no number. -/
def isPadded (text : List Char) : Bool :=
  match unsigned text with
  | '0' :: digit :: rest => (digit :: rest).all Char.isDigit
  | _ => false

/-- The number that digits of a base denote, if there are any and nothing else. -/
def valueIn? (base : Nat) (digits : List Char) : Option Nat :=
  if digits = [] then none
  else
    digits.foldl (fun value c => do
      let digit ← hexValue? c
      if digit < base then return base * (← value) + digit else none) (some 0)

def based? : List Char → Option (Nat × List Char)
  | '0' :: 'x' :: rest => some (16, rest)
  | '0' :: 'o' :: rest => some (8, rest)
  | '0' :: 'b' :: rest => some (2, rest)
  | _ => none

def denotesBelow (bound base : Nat) (digits : List Char) : Bool :=
  match valueIn? base digits with
  | some value => value < bound
  | none => false

/-- Integers have 128 bits: unsigned ones all of them, those with a minus one less. -/
def isInteger (text : List Char) : Bool :=
  match text with
  | '-' :: rest =>
    match based? rest with
    | some (base, digits) => denotesBelow (Nat.pow 2 127 + 1) base digits
    | none => !isPadded text && denotesBelow (Nat.pow 2 127 + 1) 10 rest
  | text =>
    let rest := if text.head? = some '+' then text.drop 1 else text
    match based? rest with
    | some (base, digits) => denotesBelow (Nat.pow 2 128) base digits
    | none => !isPadded text && denotesBelow (Nat.pow 2 128) 10 rest

def isExponent (text : List Char) : Bool :=
  let digits := unsigned text
  !digits.isEmpty && digits.all Char.isDigit

/-- A decimal numeral without a sign: digits around an optional point, and an optional exponent. -/
def isDecimal (text : List Char) : Bool :=
  let mantissa := text.takeWhile fun c => !Numeral.isExponentMark c
  let digits := mantissa.erase '.'
  !digits.isEmpty && digits.all Char.isDigit &&
    (match text.drop mantissa.length with
    | [] => true
    | _ :: exponent => isExponent exponent)

def infinityWords : List String := [".inf", ".Inf", ".INF"]

def notANumberWords : List String := [".nan", ".NaN", ".NAN"]

/-- A finite decimal number, an infinity with or without a sign, or the word for no number. -/
def isReal (text : List Char) : Bool :=
  let magnitude := unsigned text
  infinityWords.contains (String.ofList magnitude) ||
    notANumberWords.contains (String.ofList text) ||
    (isDecimal magnitude && (Numeral.ofText magnitude).isFinite)

/-- Whether a plain scalar with this text might be read as something else than this text. -/
def isAmbiguous (text : String) : Bool :=
  text = "" || isNull text || (truthValue? text).isSome || isInteger text.toList ||
    isPadded text.toList || isReal text.toList

end SourceAtlas.Yaml
