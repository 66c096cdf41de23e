import SourceAtlas.Text.Hex
import SourceAtlas.Yaml.Character

/-! Anchors, tags and directives, and the characters in them. -/
namespace SourceAtlas.Yaml

def textOf (spots : List Spot) : String := String.ofList (spots.map (·.char))

def wordAt (spots : List Spot) : List Spot := spots.takeWhile fun spot => isWordChar spot.char

def readAnchor? (spots : List Spot) : Option (String × List Spot) :=
  let name := wordAt spots
  let rest := spots.drop name.length
  if name = [] then none
  else if endsWord rest || startsWith ['?', ':', ',', ']', '}', '%', '@', '\x60'] rest then
    some (textOf name, rest)
  else none

/-- A tag as written: a handle, and the rest after it. A tag without a handle is complete. -/
structure WrittenTag where
  handle : String
  suffix : String
  deriving DecidableEq, Repr

/-- The characters of tags; `more` are those that are allowed besides. -/
def isTagChar (more : List Char) (c : Char) : Bool :=
  isWordChar c || (more ++ [';', '/', '?', ':', '@', '&', '=', '+', '$', '.', '%', '!', '~', '*',
    '\x27', '(', ')']).contains c

/-- The length in bytes of a character, by its first byte in UTF-8. -/
def sequenceLength? (byte : Nat) : Option Nat :=
  if byte < 0x80 then some 1
  else if byte / 32 = 6 then some 2
  else if byte / 16 = 14 then some 3
  else if byte / 8 = 30 then some 4
  else none

/-- Reads the text of a tag, in which percent signs escape bytes. `awaited` is the number of bytes that
are missing from a character. An escaped byte stands for the character of its number. -/
def tagText? (awaited : Nat) : List Char → Option (List Char)
  | [] => if awaited = 0 then some [] else none
  | '%' :: high :: low :: rest =>
    match Text.hexValue? high, Text.hexValue? low with
    | some high, some low =>
      let byte := 16 * high + low
      match awaited with
      | 0 => do return Char.ofNat byte :: (← tagText? ((← sequenceLength? byte) - 1) rest)
      | awaited + 1 =>
        if byte / 64 = 2 then do return Char.ofNat byte :: (← tagText? awaited rest) else none
    | _, _ => none
  | c :: rest =>
    if awaited = 0 ∧ c ≠ '%' then do return c :: (← tagText? 0 rest) else none

/-- Reads characters of a tag, with a NUL and what follows it if there is one. -/
def readTagText? (more : List Char) (spots : List Spot) : Option (List Char × List Spot) := do
  let inside := spots.takeWhile fun spot => isTagChar more spot.char
  return (← tagText? 0 (inside.map (·.char)), spots.drop inside.length)

/-- The tag, or part of one, that a text spells: all that comes before a NUL. -/
def tagPart (text : List Char) : String := String.ofList (text.takeWhile (· != '\x00'))

def verbatimChars : List Char := [',', '[', ']']

def readVerbatim? (spots : List Spot) : Option (WrittenTag × List Spot) := do
  let (suffix, rest) ← readTagText? verbatimChars spots
  if suffix = [] ∨ !startsWith ['>'] rest then none
  else return (⟨"", tagPart suffix⟩, rest.drop 1)

/-- Reads a tag after its exclamation mark, with or without a handle between two of these. An
exclamation mark before nothing is a complete tag. -/
def readShorthand? (spots : List Spot) : Option (WrittenTag × List Spot) := do
  let name := wordAt spots
  let rest := spots.drop name.length
  if startsWith ['!'] rest then
    let (suffix, rest) ← readTagText? [] (rest.drop 1)
    if suffix = [] then none
    else return (⟨"!" ++ textOf name ++ "!", tagPart suffix⟩, rest)
  else
    let (suffix, rest) ← readTagText? [] rest
    let suffix := textOf name ++ tagPart suffix
    return (if suffix = "" then ⟨"", "!"⟩ else ⟨"!", suffix⟩, rest)

/-- Reads a tag after its exclamation mark. Between brackets a comma may follow it. -/
def readTag? (inFlow : Bool) (spots : List Spot) : Option (WrittenTag × List Spot) := do
  let (tag, rest) ←
    if startsWith ['<'] spots then readVerbatim? (spots.drop 1) else readShorthand? spots
  if endsWord rest || (inFlow && startsWith [','] rest) then return (tag, rest) else none

/-- A line before a document: the version it is written in, or what a tag handle stands for. -/
inductive Directive
  | version (major minor : Nat)
  | tag (handle start : String)
  deriving DecidableEq, Repr

/-- Reads a number of at most nine digits. -/
def readNumber? (spots : List Spot) : Option (Nat × List Spot) :=
  let digits := spots.takeWhile fun spot => spot.char.isDigit
  if digits = [] ∨ digits.length > 9 then none
  else some ((textOf digits).toNat?.getD 0, spots.drop digits.length)

def readVersion? (spots : List Spot) : Option (Directive × List Spot) := do
  let (major, rest) ← readNumber? (dropBlanks spots)
  if startsWith ['.'] rest then
    let (minor, rest) ← readNumber? (rest.drop 1)
    return (.version major minor, rest)
  else none

/-- Reads a tag handle: an exclamation mark, alone or before a name with another one. -/
def readHandle? (spots : List Spot) : Option (String × List Spot) :=
  if startsWith ['!'] spots then
    let name := wordAt (spots.drop 1)
    let rest := spots.drop (1 + name.length)
    if startsWith ['!'] rest then some ("!" ++ textOf name ++ "!", rest.drop 1)
    else if name = [] then some ("!", rest)
    else none
  else none

def readTagDirective? (spots : List Spot) : Option (Directive × List Spot) := do
  let (handle, rest) ← readHandle? (dropBlanks spots)
  if startsWith [' ', '\t'] rest then
    let (start, rest) ← readTagText? verbatimChars (dropBlanks rest)
    if start ≠ [] ∧ endsWord rest then return (.tag handle (tagPart start), rest) else none
  else none

/-- Reads a directive after its percent sign, to the end of its line. -/
def readDirective? (spots : List Spot) : Option (Directive × List Spot) := do
  let name := wordAt spots
  let rest := spots.drop name.length
  if endsWord rest then
    let (directive, rest) ←
      match textOf name with
      | "YAML" => readVersion? rest
      | "TAG" => readTagDirective? rest
      | _ => none
    return (directive, ← finishLine? rest)
  else none

end SourceAtlas.Yaml
