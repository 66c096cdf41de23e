import SourceAtlas.Glob.Pattern

/-! The bytes that the tokens of a pattern stand for. -/
namespace SourceAtlas.Glob

abbrev Bytes := List UInt8

def separator : UInt8 := 0x2F

def spansByte (separated : Bool) (b : UInt8) : Bool := !separated || b != separator

/-- The byte ranges of a character range: the last byte of its first character up to the first byte of
its last character, and all their other bytes singly. -/
def byteRanges (range : Char × Char) : List (UInt8 × UInt8) :=
  let first := String.utf8EncodeChar range.1
  let last := String.utf8EncodeChar range.2
  if range.1 = range.2 then first.map fun b => (b, b)
  else
    match first.getLast?, last with
    | some low, high :: rest =>
      (first.dropLast.map fun b => (b, b)) ++ (low, high) :: rest.map fun b => (b, b)
    | _, _ => []

/-- The byte ranges of a class, from those of its characters. -/
def classRanges (ranges : List (Char × Char)) : List (UInt8 × UInt8) := ranges.flatMap byteRanges

def inRanges (ranges : List (UInt8 × UInt8)) (b : UInt8) : Bool :=
  ranges.any fun range => range.1 ≤ b && b ≤ range.2

mutual

/-- Whether a token can only stand for nothing: a group without any branch that says something. -/
def Token.isVoid : Token → Bool
  | .alternatives branches => branchesVoid branches
  | _ => false

def branchVoid : List Token → Bool
  | [] => true
  | token :: tokens => token.isVoid && branchVoid tokens

def branchesVoid : List (List Token) → Bool
  | [] => true
  | branch :: branches => branchVoid branch && branchesVoid branches

end

end SourceAtlas.Glob
