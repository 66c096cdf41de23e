import SourceAtlas.Yaml.Token

/-! YAML documents as trees of nodes. Tokens are taken one by one; a missing key, value or item is an
empty plain scalar. -/
namespace SourceAtlas.Yaml

/-- What stands before a node: the number of its anchor, and its tag. -/
structure Properties where
  anchor : Option Nat
  tag : Option String
  deriving DecidableEq, Repr

def Properties.none : Properties := ⟨.none, .none⟩

/-- A node. An alias holds the number of the anchor that it refers to. -/
inductive Node
  | scalar (properties : Properties) (style : Style) (text : String)
  | sequence (properties : Properties) (items : List Node)
  | mapping (properties : Properties) (members : List (Node × Node))
  | alias (anchor : Nat)
  deriving Repr

def Node.empty (properties : Properties) : Node := .scalar properties .plain ""

/-- The collections that nodes are in. A dashed list is a sequence without indentation of its own. A
pair is a mapping of one member within a flow sequence, and a lone key is one without a mark in a flow
mapping. -/
inductive Shape
  | blockSequence
  | dashedList
  | blockMapping
  | flowSequence
  | pair
  | flowMapping
  | loneKey
  deriving DecidableEq, Repr

/-- A collection that is being read, with its nodes so far, latest first. In a mapping keys and values
take turns. -/
structure Frame where
  shape : Shape
  properties : Properties
  parts : List Node
  deriving Repr

/-- What comes next in the innermost collection: a node that may be missing, a node with properties
that may have been read already, an entry after an opening bracket or comma, or an indicator. -/
inductive Expected
  | slot
  | node (properties : Properties)
  | entry
  | indicator
  deriving Repr

/-- A document that is being read: the open collections, innermost first, or the complete node. `names`
has the anchors in use with their numbers, and `handles` says what tag handles stand for. -/
structure Reading where
  expected : Expected
  frames : List Frame
  done : Option Node
  names : List (String × Nat)
  handles : List (String × String)
  deriving Repr

def membersOf : List Node → List (Node × Node)
  | key :: value :: rest => (key, value) :: membersOf rest
  | _ => []

def Frame.isMapping (frame : Frame) : Bool :=
  frame.shape == .blockMapping || frame.shape == .flowMapping || frame.shape == .pair

def Frame.awaitsValue (frame : Frame) : Bool := frame.isMapping && frame.parts.length % 2 == 1

def Frame.toNode (frame : Frame) : Node :=
  if frame.isMapping then .mapping frame.properties (membersOf frame.parts.reverse)
  else .sequence frame.properties frame.parts.reverse

def Frame.push (frame : Frame) (node : Node) : Frame := { frame with parts := node :: frame.parts }

/-- Puts a node into the innermost collection. A pair ends with its value, and a lone key has none. -/
def putInto (node : Node) : List Frame → List Frame
  | ⟨.loneKey, _, _⟩ :: outer :: frames => (outer.push node).push (.empty .none) :: frames
  | ⟨.pair, properties, [key]⟩ :: outer :: frames =>
    outer.push (.mapping properties [(key, node)]) :: frames
  | frame :: frames => frame.push node :: frames
  | [] => []

namespace Reading

def complete (reading : Reading) (node : Node) : Reading :=
  if reading.frames.isEmpty then { reading with done := some node }
  else { reading with expected := .indicator, frames := putInto node reading.frames }

def close (reading : Reading) : Reading :=
  match reading.frames with
  | [] => reading
  | frame :: frames => { reading with frames }.complete frame.toNode

def open? (reading : Reading) (shape : Shape) (properties : Properties) (expected : Expected) :
    Reading :=
  { reading with expected, frames := ⟨shape, properties, []⟩ :: reading.frames }

def expect (reading : Reading) (expected : Expected) : Reading := { reading with expected }

/-- Whether a node that may be missing is missing before a token. -/
def endsSlot (frame : Option Frame) (token : Token) : Bool :=
  match frame.map Frame.shape with
  | some .blockSequence => token == .dash || token == .blockEnd
  | some .dashedList => token == .dash || token == .key || token == .value || token == .blockEnd
  | some .blockMapping => token == .key || token == .value || token == .blockEnd
  | some .flowSequence | some .pair => token == .comma || token == .closeSequence
  | some .flowMapping | some .loneKey =>
    token == .value || token == .comma || token == .closeMapping
  | none =>
    match token with
    | .directive _ | .documentStart | .documentEnd => true
    | _ => false

/-- Whether a token can start or go on with a node that has some properties. -/
def startsNode (frame : Option Frame) (properties : Properties) (token : Token) : Bool :=
  let shape := frame.map Frame.shape
  let inBlock := shape == none || shape == some .blockSequence || shape == some .dashedList ||
    shape == some .blockMapping
  match token with
  | .alias _ => properties == .none
  | .anchor _ => properties.anchor.isNone
  | .tag _ => properties.tag.isNone
  | .scalar .. | .openSequence | .openMapping => true
  | .sequenceStart | .mappingStart => inBlock
  | .dash => shape == some .blockMapping
  | _ => false

/-- What happens before a token is taken: a missing node is filled in, or a collection ends that has no
token for its end. -/
def prepare? (reading : Reading) (token : Token) : Option Reading :=
  let frame := reading.frames.head?
  match reading.expected with
  | .slot =>
    if frame.any fun frame => frame.shape == .pair && frame.parts.isEmpty then
      if token == .value || endsSlot frame token then none else some (reading.expect (.node .none))
    else if endsSlot frame token then some (reading.complete (.empty .none))
    else some (reading.expect (.node .none))
  | .node properties =>
    if !startsNode frame properties token && properties != .none then
      some (reading.complete (.empty properties))
    else none
  | .entry =>
    match frame.map Frame.shape with
    | some .flowSequence =>
      if token == .key || token == .closeSequence then none
      else some (reading.expect (.node .none))
    | _ =>
      if token == .key || token == .closeMapping then none
      else some (reading.open? .loneKey .none (.node .none))
  | .indicator =>
    if frame.any fun frame => frame.shape == .dashedList then
      if token == .dash then none else some reading.close
    else if frame.any Frame.awaitsValue && token != .value then
      some (reading.complete (.empty .none))
    else none

/-- Prepares for a token in at most `limit` steps. -/
def prepareAll (reading : Reading) (token : Token) : (limit : Nat) → Reading
  | 0 => reading
  | limit + 1 =>
    match reading.done, reading.prepare? token with
    | none, some next => next.prepareAll token limit
    | _, _ => reading

/-- No more steps than these are needed: a missing item, the end of a dashed list, a missing value. -/
def preparations : Nat := 8

def tagOf? (reading : Reading) (tag : WrittenTag) : Option String :=
  if tag.handle = "" then some tag.suffix
  else (reading.handles.lookup tag.handle).map (· ++ tag.suffix)

/-- Gives an anchor its number: how many names are in use. A name that is used again keeps its place
among them, so that the next anchor may get the same number. -/
def nameAnchor (reading : Reading) (name : String) : Nat × Reading :=
  let number := reading.names.length
  let others := reading.names.filter (·.1 != name)
  (number, { reading with names := (name, number) :: others })

def takeNode? (reading : Reading) (properties : Properties) : Token → Option Reading
  | .alias name =>
    (reading.names.lookup name).map fun number => reading.complete (.alias number)
  | .anchor name =>
    let (number, reading) := reading.nameAnchor name
    some (reading.expect (.node { properties with anchor := some number }))
  | .tag tag =>
    (reading.tagOf? tag).map fun tag => reading.expect (.node { properties with tag := some tag })
  | .scalar style text => some (reading.complete (.scalar properties style text))
  | .openSequence => some (reading.open? .flowSequence properties .entry)
  | .openMapping => some (reading.open? .flowMapping properties .entry)
  | .sequenceStart => some (reading.open? .blockSequence properties .indicator)
  | .mappingStart => some (reading.open? .blockMapping properties .indicator)
  | .dash => some (reading.open? .dashedList properties .slot)
  | _ => none

def takeIndicator? (reading : Reading) (frame : Frame) (token : Token) : Option Reading :=
  let awaitsValue := frame.awaitsValue
  match frame.shape, token with
  | .blockSequence, .dash | .dashedList, .dash => some (reading.expect .slot)
  | .blockSequence, .blockEnd => some reading.close
  | .blockMapping, .key => if awaitsValue then none else some (reading.expect .slot)
  | .blockMapping, .value | .flowMapping, .value | .pair, .value =>
    if awaitsValue then some (reading.expect .slot) else none
  | .blockMapping, .blockEnd => if awaitsValue then none else some reading.close
  | .flowSequence, .comma => some (reading.expect .entry)
  | .flowSequence, .closeSequence => some reading.close
  | .flowMapping, .comma => if awaitsValue then none else some (reading.expect .entry)
  | .flowMapping, .closeMapping => if awaitsValue then none else some reading.close
  | _, _ => none

/-- Takes a token. Where a pair lacks its key, the token after the mark is passed over. -/
def take? (reading : Reading) (token : Token) : Option Reading :=
  let reading := reading.prepareAll token preparations
  if reading.done.isSome then
    if token == .documentEnd then some reading else none
  else
    match reading.expected, reading.frames with
    | .node properties, frames =>
      if startsNode frames.head? properties token then reading.takeNode? properties token else none
    | .slot, frame :: _ =>
      if frame.shape == .pair then some (reading.complete (.empty .none)) else none
    | .slot, [] => none
    | .entry, frame :: _ =>
      match frame.shape, token with
      | .flowSequence, .key => some (reading.open? .pair .none .slot)
      | .flowSequence, .closeSequence => some reading.close
      | .flowMapping, .key => some (reading.expect .slot)
      | .flowMapping, .closeMapping => some reading.close
      | _, _ => none
    | .indicator, frame :: _ => reading.takeIndicator? frame token
    | _, [] => none

def finish? (reading : Reading) : Option Node := (reading.prepareAll .documentEnd preparations).done

end Reading

/-- The tag handles that need no directive. -/
def defaultHandles : List (String × String) := [("!", "!"), ("!!", "tag:yaml.org,2002:")]

/-- What the directives before a document declare: whether there is a version, and the tag handles. -/
structure Prologue where
  versioned : Bool
  handles : List (String × String)

/-- Reads the directives before a document. There is one version at most, and it has to be 1.1 or 1.2; a
handle is declared once. -/
def readPrologue? (prologue : Prologue) : List Token → Option (Prologue × List Token)
  | .directive (.version major minor) :: rest =>
    if prologue.versioned || major != 1 || !(minor == 1 || minor == 2) then none
    else readPrologue? { prologue with versioned := true } rest
  | .directive (.tag handle start) :: rest =>
    if prologue.handles.any (·.1 == handle) then none
    else readPrologue? { prologue with handles := (handle, start) :: prologue.handles } rest
  | tokens => some (prologue, tokens)

/-- A text holds no document, or one. -/
inductive Document
  | void
  | node (root : Node)
  deriving Repr

def startsDocument : Token → Bool
  | .directive _ | .documentStart => true
  | _ => false

def documentOf? (tokens : List Token) : Option Document := do
  match tokens with
  | [] => return .void
  | token :: _ =>
    let (prologue, tokens) ← readPrologue? ⟨false, []⟩ tokens
    let handles := prologue.handles ++ defaultHandles
    if startsDocument token then
      match tokens with
      | .documentStart :: rest =>
        let reading ← rest.foldlM Reading.take? ⟨.slot, [], none, [], handles⟩
        return .node (← reading.finish?)
      | _ => none
    else
      let reading ← tokens.foldlM Reading.take? ⟨.node .none, [], none, [], handles⟩
      return .node (← reading.finish?)

/-- Reads a text with at most one document. -/
def document? (text : List Char) : Option Document := do documentOf? (← tokens? text)

mutual

/-- The last node with an anchor of a given number, at or below a node. -/
def Node.anchored? (anchor : Nat) : Node → Option Node
  | .alias _ => none
  | .scalar properties style text =>
    if properties.anchor = some anchor then some (.scalar properties style text) else none
  | .sequence properties items =>
    (anchoredAmong? anchor items).or
      (if properties.anchor = some anchor then some (.sequence properties items) else none)
  | .mapping properties members =>
    (anchoredMember? anchor members).or
      (if properties.anchor = some anchor then some (.mapping properties members) else none)

def anchoredAmong? (anchor : Nat) : List Node → Option Node
  | [] => none
  | node :: rest => (anchoredAmong? anchor rest).or (node.anchored? anchor)

def anchoredMember? (anchor : Nat) : List (Node × Node) → Option Node
  | [] => none
  | (key, value) :: rest =>
    (anchoredMember? anchor rest).or ((value.anchored? anchor).or (key.anchored? anchor))

end

end SourceAtlas.Yaml
