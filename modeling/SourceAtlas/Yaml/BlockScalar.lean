import SourceAtlas.Yaml.FlowScalar

/-! Block scalars: literal ones, which keep their line breaks, and folded ones. -/
namespace SourceAtlas.Yaml

inductive Chomping
  | strip
  | clip
  | keep
  deriving DecidableEq, Repr

/-- The header of a block scalar. `increment` is the indentation beyond that of the parent. -/
structure BlockHeader where
  chomping : Chomping
  increment : Option Nat
  deriving DecidableEq, Repr

def chomping? : Char → Option Chomping
  | '+' => some .keep
  | '-' => some .strip
  | _ => none

def increment? (c : Char) : Option Nat :=
  if c.isDigit ∧ c ≠ '0' then some (c.toNat - '0'.toNat) else none

/-- Reads the indicators after the one that starts a block scalar, in either order. -/
def readHeader : List Spot → BlockHeader × List Spot
  | [] => (⟨.clip, none⟩, [])
  | first :: rest =>
    match chomping? first.char, increment? first.char with
    | some chomping, _ =>
      match rest.head?.bind fun spot => increment? spot.char with
      | some increment => (⟨chomping, some increment⟩, rest.drop 1)
      | none => (⟨chomping, none⟩, rest)
    | none, some increment =>
      match rest.head?.bind fun spot => chomping? spot.char with
      | some chomping => (⟨chomping, some increment⟩, rest.drop 1)
      | none => (⟨.clip, some increment⟩, rest)
    | none, none => (⟨.clip, none⟩, first :: rest)

/-- What is read of a block scalar. `before` is its text and `breaks` are the line breaks after the line
break `lineEnd` of its last line, all latest first. `indent` is known once there is a line; until then
`widest` is the widest indentation of an empty line. -/
structure BlockDraft where
  before : List Char
  lineEnd : Option Char
  breaks : List Char
  startsBlank : Bool
  indent : Option Nat
  widest : Nat

namespace BlockDraft

def indents (draft : BlockDraft) (spot : Spot) : Bool :=
  match draft.indent with
  | none => true
  | some indent => spot.column < indent

/-- The text when a line starts after the line breaks. A folded line break between two lines that do not
start with a blank is a space, or nothing before further breaks. -/
def joined (draft : BlockDraft) (folded : Bool) (startsBlank : Bool) : List Char :=
  if folded && draft.lineEnd == some '\n' && !draft.startsBlank && !startsBlank then
    if draft.breaks = [] then ' ' :: draft.before else draft.breaks ++ draft.before
  else draft.breaks ++ draft.lineEnd.toList ++ draft.before

/-- Starts a line with a character. -/
def startLine (draft : BlockDraft) (folded : Bool) (indent : Nat) (c : Char) : BlockDraft where
  before := c :: draft.joined folded (isBlank c)
  lineEnd := none
  breaks := []
  startsBlank := isBlank c
  indent := some indent
  widest := draft.widest

/-- The whole text, once the scalar ends. -/
def finish (draft : BlockDraft) (chomping : Chomping) : List Char :=
  let last := match chomping with
    | .strip => draft.before
    | .clip => draft.lineEnd.toList ++ draft.before
    | .keep => draft.breaks ++ draft.lineEnd.toList ++ draft.before
  last.reverse

end BlockDraft

/-- Reads the lines of a block scalar. `parent` is the least indentation that it may have, and `inLine`
says that a line has started. -/
def blockFrom (folded : Bool) (chomping : Chomping) (parent : Nat) (inLine : Bool)
    (draft : BlockDraft) : List Spot → Option Scanned
  | [] => some ⟨draft.finish chomping, true, []⟩
  | spot :: rest =>
    if inLine then
      if spot.breaks then
        blockFrom folded chomping parent false { draft with lineEnd := some spot.char } rest
      else
        blockFrom folded chomping parent true
          { draft with before := spot.char :: draft.before } rest
    else if spot.char == ' ' && draft.indents spot then
      blockFrom folded chomping parent false draft rest
    else if spot.char == '\t' && draft.indents spot then none
    else
      let widest := max draft.widest spot.column
      if spot.breaks then
        blockFrom folded chomping parent false
          { draft with breaks := spot.char :: draft.breaks, widest } rest
      else
        let indent := draft.indent.getD (max widest (max parent 1))
        if spot.column = indent then
          blockFrom folded chomping parent true
            (draft.startLine folded indent spot.char) rest
        else some ⟨draft.finish chomping, true, spot :: rest⟩

/-- Reads a block scalar after its first indicator. `parent` is the least indentation that it may have,
and `base` is the one that a given increment is added to. -/
def readBlock (folded : Bool) (parent base : Nat) (spots : List Spot) : Option Scanned := do
  let (header, rest) := readHeader spots
  let rest ← finishLine? rest
  let indent := header.increment.map (base + ·)
  blockFrom folded header.chomping parent false ⟨[], none, [], false, indent, 0⟩ rest

end SourceAtlas.Yaml
