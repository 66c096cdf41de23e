import SourceAtlas.Text.Numeral

/-! How large a JSON number may be. Its digits are kept in 64 bits, with a power of ten beside them; both
are rounded to doubles, and their product must not be beyond the largest double. -/
namespace SourceAtlas.Json

/-- The digits of a number that are kept, and the power of ten that they are multiplied by. -/
structure Magnitude where
  significand : Nat
  exponent : Int
  deriving DecidableEq, Repr

/-- The nearest number of at most 53 bits; of two, the one with a last bit of zero. -/
def roundToDouble (n : Nat) : Nat :=
  let unit := Nat.pow 2 (n.log2 - 52)
  let whole := n / unit
  let rest := 2 * (n % unit)
  if rest > unit ∨ (rest = unit ∧ whole % 2 = 1) then (whole + 1) * unit else whole * unit

namespace Magnitude

/-- One more digit after those that are kept, if they stay below 64 bits. -/
def append? (significand : Nat) (digit : Char) : Option Nat :=
  let longer := 10 * significand + Text.Numeral.digitValue digit
  if longer < Nat.pow 2 64 then some longer else none

/-- Takes the digits before the point. From the first that does not fit, each counts by its place. -/
def takeWhole (magnitude : Magnitude) : List Char → Magnitude
  | [] => magnitude
  | digit :: digits =>
    match append? magnitude.significand digit with
    | some significand => takeWhole { magnitude with significand } digits
    | none => { magnitude with exponent := magnitude.exponent + (digits.length + 1) }

/-- Takes the digits after the point, up to the first that does not fit. -/
def takeFraction (magnitude : Magnitude) : List Char → Magnitude
  | [] => magnitude
  | digit :: digits =>
    match append? magnitude.significand digit with
    | some significand => takeFraction ⟨significand, magnitude.exponent - 1⟩ digits
    | none => magnitude

def ofText (text : List Char) : Magnitude :=
  let (whole, fraction, exponent) := Text.Numeral.partsOf text
  let magnitude := (takeWhole ⟨0, 0⟩ whole).takeFraction fraction
  { magnitude with exponent := magnitude.exponent + exponent }

def exponentLimit : Nat := 308

/-- Whether a magnitude is at most the largest double. -/
def isFinite (magnitude : Magnitude) : Bool :=
  match magnitude.exponent with
  | .negSucc _ => true
  | .ofNat exponent =>
    if magnitude.significand = 0 then true
    else if exponentLimit < exponent then false
    else
      roundToDouble magnitude.significand * roundToDouble (Nat.pow 10 exponent) <
        Text.Numeral.overflow

end Magnitude

end SourceAtlas.Json
