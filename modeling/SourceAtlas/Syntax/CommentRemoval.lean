import SourceAtlas.Syntax.Source
import SourceAtlas.Text.Blank

/-! The text of a node without its comments. A comment takes blanks with it: alone on its line, the
whole line; after code, the blanks between them. Cutting overlapping spans counts each byte once. -/
namespace SourceAtlas.Syntax

/-- The bytes from `start` up to, but not including, `stop`. -/
structure Span where
  start : Nat
  stop : Nat
  deriving DecidableEq, Repr

namespace Span

def le (a b : Span) : Bool := a.start < b.start || (a.start == b.start && a.stop ≤ b.stop)

def within (inner outer : Span) : Bool := outer.start ≤ inner.start && inner.stop ≤ outer.stop

end Span

def Node.span (node : Node) : Span := ⟨node.start, node.stop⟩

def isIndent (byte : UInt8) : Bool := byte == 0x20 || byte == 0x09

def isLineTail (byte : UInt8) : Bool := isIndent byte || byte == 0x0D

/-- Where the blanks before `position` start, no earlier than `low`. -/
def indentStart (bytes : List UInt8) (low position : Nat) : Nat :=
  position - (((bytes.take position).drop low).reverse.takeWhile isIndent).length

/-- Where the blanks after `position` stop, no later than `high`. -/
def tailStop (bytes : List UInt8) (position high : Nat) : Nat :=
  position + (((bytes.take high).drop position).takeWhile isLineTail).length

/-- The span that a comment takes out of the node with the span `outer`. A comment alone on its line
goes with its indentation and its line break; one at the start of a line with code after it goes
alone; one after code goes with the blanks before it. -/
def widen (bytes : List UInt8) (outer comment : Span) : Span :=
  let start := indentStart bytes outer.start comment.start
  let stop := tailStop bytes comment.stop outer.stop
  if start = outer.start ∨ bytes[start - 1]? = some 0x0A then
    if stop < outer.stop ∧ bytes[stop]? = some 0x0A then ⟨start, stop + 1⟩ else comment
  else ⟨start, comment.stop⟩

def isComment (node : Node) : Bool := node.kind == "comment"

/-- The spans to cut out of a node, in order. -/
def cuts (bytes : List UInt8) (node : Node) : List Span :=
  let comments := node.nodes.filter fun part => isComment part && part.span.within node.span
  (comments.map fun comment => widen bytes node.span comment.span).mergeSort Span.le

/-- The bytes from `position` up to `stop` outside the given spans, which are in order. -/
def keepOutside (bytes : List UInt8) (stop : Nat) : Nat → List Span → List UInt8
  | position, [] => (bytes.take stop).drop position
  | position, span :: rest =>
    if span.start < position then keepOutside bytes stop (max position span.stop) rest
    else (bytes.take span.start).drop position ++ keepOutside bytes stop span.stop rest

/-- The bytes of a node without its comments. -/
def withoutComments (bytes : List UInt8) (node : Node) : List UInt8 :=
  keepOutside bytes node.stop node.start (cuts bytes node)

/-- The text of a node without its comments and without blanks at its end. -/
def SourceFile.textWithoutComments (file : SourceFile) (node : Node) : String :=
  String.ofList (Text.trimEnd (Utf8.decodeLossy (withoutComments file.bytes node)))

end SourceAtlas.Syntax
