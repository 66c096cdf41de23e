/-! Hexadecimal digits. -/
namespace SourceAtlas.Text

def hexValue? (c : Char) : Option Nat :=
  if c.isDigit then some (c.toNat - '0'.toNat)
  else if 'a' ≤ c ∧ c ≤ 'f' then some (c.toNat - 'a'.toNat + 10)
  else if 'A' ≤ c ∧ c ≤ 'F' then some (c.toNat - 'A'.toNat + 10)
  else none

/-- The digit of a value below 16, in lower case. -/
def hexDigit (n : Nat) : Char :=
  if n < 10 then Char.ofNat ('0'.toNat + n) else Char.ofNat ('a'.toNat + (n - 10))

/-- The two digits of a number below 256, in lower case. -/
def hexByte (n : Nat) : List Char := [hexDigit (n / 16), hexDigit (n % 16)]

/-- The last digits of a number, as many as `count`, in upper case. -/
def upperHex (n : Nat) : (count : Nat) → List Char
  | 0 => []
  | count + 1 => upperHex (n / 16) count ++ [(hexDigit (n % 16)).toUpper]

end SourceAtlas.Text
