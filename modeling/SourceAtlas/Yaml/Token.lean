import SourceAtlas.Yaml.BlockScalar
import SourceAtlas.Yaml.Property

/-! The tokens of a YAML text. Indentation opens and closes block collections, and a colon can turn what
stands before it on its line into a key. -/
namespace SourceAtlas.Yaml

inductive Style
  | plain
  | quoted
  | literal
  | folded
  deriving DecidableEq, Repr

inductive Token
  | directive (directive : Directive)
  | documentStart
  | documentEnd
  | sequenceStart
  | mappingStart
  | blockEnd
  | openSequence
  | closeSequence
  | openMapping
  | closeMapping
  | comma
  | dash
  | key
  | value
  | alias (name : String)
  | anchor (name : String)
  | tag (tag : WrittenTag)
  | scalar (style : Style) (text : String)
  deriving DecidableEq, Repr

/-- What may turn out to be a key: the place where it starts, and the number of tokens before it. One at
the indentation of a block mapping has to be a key. -/
structure PossibleKey where
  required : Bool
  number : Nat
  spot : Spot
  deriving Repr

/-- The state of a scan. `tokens` and `columns`, the indentations of the open block collections, are
listed latest first. `keys` has a possible key for each level of brackets, innermost first, and one for
the level outside of all. -/
structure Scanner where
  tokens : List Token
  keyAllowed : Bool
  keys : List (Option PossibleKey)
  columns : List Nat
  deriving Repr

namespace Scanner

def new : Scanner := ⟨[], true, [none], []⟩

def inFlow (scanner : Scanner) : Bool := scanner.keys.length > 1

def emit (scanner : Scanner) (token : Token) : Scanner :=
  { scanner with tokens := token :: scanner.tokens }

def allowKey (scanner : Scanner) (allowed : Bool) : Scanner := { scanner with keyAllowed := allowed }

/-- Inserts a token after the first `number` tokens. -/
def insertAt (scanner : Scanner) (number : Nat) (token : Token) : Scanner :=
  let later := scanner.tokens.length - number
  { scanner with tokens := scanner.tokens.take later ++ token :: scanner.tokens.drop later }

/-- The least indentation within the innermost block collection. -/
def innerIndent (scanner : Scanner) : Nat :=
  match scanner.columns with
  | [] => 0
  | column :: _ => column + 1

/-- Gives up the possible key of the innermost level, unless it has to be a key. -/
def dropKey? (scanner : Scanner) : Option Scanner :=
  match scanner.keys with
  | some key :: outer => if key.required then none else some { scanner with keys := none :: outer }
  | _ => some scanner

/-- Remembers that a key may start here. -/
def markKey? (scanner : Scanner) (spot : Spot) : Option Scanner :=
  if scanner.keyAllowed then do
    let scanner ← scanner.dropKey?
    let required := !scanner.inFlow && scanner.columns.head? == some spot.column
    return { scanner with
      keys := some ⟨required, scanner.tokens.length, spot⟩ :: scanner.keys.drop 1 }
  else some scanner

/-- The longest stretch in bytes of a key without a mark of its own. -/
def keyLimit : Nat := 1024

/-- The possible key that a colon here refers to, if it starts on the same line and near enough. A
required key that does not is an error. -/
def keyFor? (scanner : Scanner) (spot : Spot) : Option (Option PossibleKey) :=
  match scanner.keys.head?.join with
  | none => some none
  | some key =>
    if key.spot.line = spot.line ∧ spot.index ≤ key.spot.index + keyLimit then some (some key)
    else if key.required then none
    else some none

/-- Opens a block collection at a column beyond those that are open, before the token with a number. -/
def openBlock (scanner : Scanner) (column number : Nat) (token : Token) : Scanner :=
  if scanner.inFlow || scanner.columns.head?.any (column ≤ ·) then scanner
  else { scanner.insertAt number token with columns := column :: scanner.columns }

def openBlockHere (scanner : Scanner) (column : Nat) (token : Token) : Scanner :=
  scanner.openBlock column scanner.tokens.length token

/-- Closes the block collections with more indentation than a column; all of them outside of every
column. -/
def closeBlocks (scanner : Scanner) (column : Option Nat) : Scanner :=
  if scanner.inFlow then scanner
  else
    let closed := scanner.columns.takeWhile fun edge => column.all (· < edge)
    { scanner with
      tokens := List.replicate closed.length .blockEnd ++ scanner.tokens
      columns := scanner.columns.drop closed.length }

/-- Ends all block collections before a mark or directive. -/
def endBlocks? (scanner : Scanner) : Option Scanner := do
  return (← (scanner.closeBlocks none).dropKey?).allowKey false

end Scanner

/-- Drops blanks, comments, line breaks and byte order marks at the start of a line. In block context a
key may start after a line break, and a tab may not stand where a key may start. -/
def skipBlanks (inFlow allowed inComment : Bool) : List Spot → Bool × List Spot
  | [] => (allowed, [])
  | spot :: rest =>
    if spot.breaks then skipBlanks inFlow (allowed || !inFlow) false rest
    else if inComment then skipBlanks inFlow allowed true rest
    else if spot.marksOrder || spot.char == ' ' || (spot.char == '\t' && (inFlow || !allowed)) then
      skipBlanks inFlow allowed false rest
    else if spot.char == '#' then skipBlanks inFlow allowed true rest
    else (allowed, spot :: rest)

abbrev Step := Option (Scanner × List Spot)

namespace Scanner

def mark? (scanner : Scanner) (token : Token) (rest : List Spot) : Step := do
  return ((← scanner.endBlocks?).emit token, rest.drop 2)

def directive? (scanner : Scanner) (rest : List Spot) : Step := do
  let scanner ← scanner.endBlocks?
  let (directive, rest) ← readDirective? rest
  return (scanner.emit (.directive directive), rest)

def openFlow? (scanner : Scanner) (spot : Spot) (token : Token) (rest : List Spot) : Step := do
  let scanner ← scanner.markKey? spot
  return ({ scanner with
    tokens := token :: scanner.tokens
    keyAllowed := true
    keys := none :: scanner.keys }, rest)

def closeFlow? (scanner : Scanner) (token : Token) (rest : List Spot) : Step := do
  let scanner ← scanner.dropKey?
  return ({ scanner with
    tokens := token :: scanner.tokens
    keyAllowed := false
    keys := if scanner.inFlow then scanner.keys.drop 1 else scanner.keys }, rest)

def comma? (scanner : Scanner) (rest : List Spot) : Step := do
  return (((← scanner.dropKey?).allowKey true).emit .comma, rest)

def dash? (scanner : Scanner) (spot : Spot) (rest : List Spot) : Step :=
  if !scanner.inFlow && !scanner.keyAllowed then none
  else do
    let scanner := scanner.openBlockHere spot.column .sequenceStart
    return (((← scanner.dropKey?).allowKey true).emit .dash, rest)

def key? (scanner : Scanner) (spot : Spot) (rest : List Spot) : Step :=
  if !scanner.inFlow && !scanner.keyAllowed then none
  else do
    let scanner := scanner.openBlockHere spot.column .mappingStart
    return (((← scanner.dropKey?).allowKey (!scanner.inFlow)).emit .key, rest)

def value? (scanner : Scanner) (spot : Spot) (rest : List Spot) : Step := do
  match ← scanner.keyFor? spot with
  | some key =>
    let scanner := scanner.insertAt key.number .key
    let scanner := scanner.openBlock key.spot.column key.number .mappingStart
    return ({ scanner with
      tokens := .value :: scanner.tokens
      keyAllowed := false
      keys := none :: scanner.keys.drop 1 }, rest)
  | none =>
    if !scanner.inFlow && !scanner.keyAllowed then none
    else
      let scanner := scanner.openBlockHere spot.column .mappingStart
      return ((scanner.allowKey (!scanner.inFlow)).emit .value, rest)

/-- Reads a token that may start a key and after which none may start. -/
def keyPart? {α : Type} (scanner : Scanner) (spot : Spot) (token : α → Token)
    (read : Option (α × List Spot)) : Step := do
  let scanner ← scanner.markKey? spot
  let (content, rest) ← read
  return ((scanner.allowKey false).emit (token content), rest)

def plain? (scanner : Scanner) (spot : Spot) (rest : List Spot) : Step := do
  let scanner ← scanner.markKey? spot
  let scanned ← plainFrom scanner.inFlow scanner.innerIndent [] .none (spot :: rest)
  return ((scanner.allowKey scanned.broken).emit (.scalar .plain (String.ofList scanned.text)),
    scanned.rest)

def quoted? (scanner : Scanner) (spot : Spot) (read : Option Scanned) : Step :=
  scanner.keyPart? spot (fun text => .scalar .quoted (String.ofList text))
    (read.map fun scanned => (scanned.text, scanned.rest))

def block? (scanner : Scanner) (style : Style) (rest : List Spot) : Step := do
  let scanner ← scanner.dropKey?
  let base := scanner.columns.head?.getD 0
  let scanned ← readBlock (style == .folded) scanner.innerIndent base rest
  return ((scanner.allowKey true).emit (.scalar style (String.ofList scanned.text)), scanned.rest)

/-- The characters that cannot start a plain scalar. -/
def indicators : List Char :=
  ['-', '?', ':', ',', '[', ']', '{', '}', '#', '&', '*', '!', '|', '>', '\x27', '"', '%', '@',
    '\x60']

/-- Whether a plain scalar starts here. A dash may start one before anything but a blank; in block
context a question mark or colon may do so before a character of a word. -/
def startsPlain (scanner : Scanner) (spot : Spot) (rest : List Spot) : Bool :=
  (!spot.white && !indicators.contains spot.char) ||
    (spot.char == '-' && !rest.head?.any Spot.blank) ||
    (!scanner.inFlow && (spot.char == '?' || spot.char == ':') && !endsWord rest)

def token? (scanner : Scanner) (spot : Spot) (rest : List Spot) : Step :=
  let indicates := scanner.inFlow || endsWord rest
  if spot.column == 0 && spot.char == '%' then scanner.directive? rest
  else if isMark '-' (spot :: rest) then scanner.mark? .documentStart rest
  else if isMark '.' (spot :: rest) then scanner.mark? .documentEnd rest
  else if spot.char == '[' then scanner.openFlow? spot .openSequence rest
  else if spot.char == '{' then scanner.openFlow? spot .openMapping rest
  else if spot.char == ']' then scanner.closeFlow? .closeSequence rest
  else if spot.char == '}' then scanner.closeFlow? .closeMapping rest
  else if spot.char == ',' then scanner.comma? rest
  else if spot.char == '-' && endsWord rest then scanner.dash? spot rest
  else if spot.char == '?' && indicates then scanner.key? spot rest
  else if spot.char == ':' && indicates then scanner.value? spot rest
  else if spot.char == '*' then scanner.keyPart? spot .alias (readAnchor? rest)
  else if spot.char == '&' then scanner.keyPart? spot .anchor (readAnchor? rest)
  else if spot.char == '!' then scanner.keyPart? spot .tag (readTag? scanner.inFlow rest)
  else if spot.char == '|' && !scanner.inFlow then scanner.block? .literal rest
  else if spot.char == '>' && !scanner.inFlow then scanner.block? .folded rest
  else if spot.char == singleQuote then scanner.quoted? spot (singleFrom [] .none false rest)
  else if spot.char == '"' then scanner.quoted? spot (doubleFrom [] .none .none rest)
  else if scanner.startsPlain spot rest then scanner.plain? spot rest
  else none

/-- Reads the tokens from a place on, at most `limit` of them. -/
def scanFrom? (scanner : Scanner) (limit : Nat) (spots : List Spot) : Option (List Token) :=
  match skipBlanks scanner.inFlow scanner.keyAllowed false spots with
  | (_, []) => do return (← scanner.endBlocks?).tokens.reverse
  | (allowed, spot :: rest) =>
    match limit with
    | 0 => none
    | limit + 1 => do
      let scanner := (scanner.allowKey allowed).closeBlocks (some spot.column)
      let (scanner, rest) ← scanner.token? spot rest
      scanner.scanFrom? limit rest

end Scanner

/-- The tokens of a text. Each takes a character at least, so the length of the text bounds their
number. -/
def tokens? (text : List Char) : Option (List Token) := do
  Scanner.new.scanFrom? text.length (← spots? text)

end SourceAtlas.Yaml
