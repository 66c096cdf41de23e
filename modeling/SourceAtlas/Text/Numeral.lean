/-! Decimal numerals, and the largest magnitude that one may have: that of a double, after rounding to
nearest. -/
namespace SourceAtlas.Text

/-- A numeral as digits and a power of ten, without its sign. -/
structure Numeral where
  digits : Nat
  exponent : Int
  deriving DecidableEq, Repr

namespace Numeral

def digitValue (c : Char) : Nat := c.toNat - '0'.toNat

def natOf (digits : List Char) : Nat := digits.foldl (fun n c => 10 * n + digitValue c) 0

def isExponentMark (c : Char) : Bool := c == 'e' || c == 'E'

def exponentOf : List Char → Int
  | '-' :: digits => -(natOf digits : Int)
  | '+' :: digits => natOf digits
  | digits => natOf digits

/-- The digits before and after the point of a well-formed numeral, and its exponent. -/
def partsOf (text : List Char) : List Char × List Char × Int :=
  let text := match text with
    | '-' :: rest => rest
    | rest => rest
  let mantissa := text.takeWhile fun c => !isExponentMark c
  let whole := mantissa.takeWhile (· != '.')
  let fraction := (mantissa.dropWhile (· != '.')).drop 1
  (whole, fraction, exponentOf ((text.drop mantissa.length).drop 1))

def ofText (text : List Char) : Numeral :=
  let (whole, fraction, exponent) := partsOf text
  ⟨natOf (whole ++ fraction), exponent - fraction.length⟩

/-- The least magnitude that rounds beyond the largest finite double. -/
def overflow : Nat := Nat.pow 2 1024 - Nat.pow 2 970

/-- Whether a numeral rounds to a finite double. Its magnitude is estimated first, so that only powers
of moderate size are computed. -/
def isFinite (numeral : Numeral) : Bool :=
  let size := (numeral.digits.log2 : Int) * 3 / 10 + numeral.exponent
  if numeral.digits = 0 ∨ size < 300 then true
  else if size > 320 then false
  else
    match numeral.exponent with
    | .ofNat e => decide (numeral.digits * Nat.pow 10 e < overflow)
    | .negSucc e => decide (numeral.digits < overflow * Nat.pow 10 (e + 1))

end Numeral

end SourceAtlas.Text
