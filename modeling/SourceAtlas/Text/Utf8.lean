/-! Reading bytes as UTF-8. Bytes fall into pieces, each one character or one ill-formed piece; a strict
reader refuses ill-formed pieces and a lossy one replaces each of them by U+FFFD. -/
namespace SourceAtlas.Utf8

/-- What is due after some bytes of a piece: nothing, or `left` more continuation bytes, the first of
them between `low` and `high`, with the value read so far. -/
inductive State
  | start
  | within (value left low high : Nat)

/-- What a first byte begins: a whole character, a longer form, or nothing well-formed. -/
inductive Opening
  | whole (c : Char)
  | longer (state : State)
  | illFormed

/-- A first byte restricts the second one so that no form is overlong, no form is a surrogate and none
exceeds U+10FFFF. -/
def opening (byte : UInt8) : Opening :=
  let b := byte.toNat
  if b < 0x80 then .whole (Char.ofNat b)
  else if b < 0xC2 then .illFormed
  else if b < 0xE0 then .longer (.within (b - 0xC0) 1 0x80 0xBF)
  else if b < 0xF0 then
    .longer (.within (b - 0xE0) 2 (if b = 0xE0 then 0xA0 else 0x80) (if b = 0xED then 0x9F else 0xBF))
  else if b < 0xF5 then
    .longer (.within (b - 0xF0) 3 (if b = 0xF0 then 0x90 else 0x80) (if b = 0xF4 then 0x8F else 0xBF))
  else .illFormed

/-- The pieces of a byte text: a character, or `none` for an ill-formed piece. A byte that does not
continue a longer form ends it and is read again as a first byte. -/
def piecesFrom : State → List UInt8 → List (Option Char)
  | .start, [] => []
  | .within .., [] => [none]
  | .start, b :: rest =>
    match opening b with
    | .whole c => some c :: piecesFrom .start rest
    | .longer state => piecesFrom state rest
    | .illFormed => none :: piecesFrom .start rest
  | .within value left low high, b :: rest =>
    if low ≤ b.toNat && b.toNat ≤ high then
      let value := value * 64 + (b.toNat - 0x80)
      if left ≤ 1 then some (Char.ofNat value) :: piecesFrom .start rest
      else piecesFrom (.within value (left - 1) 0x80 0xBF) rest
    else
      none ::
        match opening b with
        | .whole c => some c :: piecesFrom .start rest
        | .longer state => piecesFrom state rest
        | .illFormed => none :: piecesFrom .start rest

def pieces (bytes : List UInt8) : List (Option Char) := piecesFrom .start bytes

def decode? (bytes : List UInt8) : Option (List Char) := (pieces bytes).mapM id

/-- The characters of any byte text, with U+FFFD for each ill-formed piece. -/
def decodeLossy (bytes : List UInt8) : List Char := (pieces bytes).map (·.getD (Char.ofNat 0xFFFD))

def encode (text : List Char) : List UInt8 := text.flatMap String.utf8EncodeChar

end SourceAtlas.Utf8
