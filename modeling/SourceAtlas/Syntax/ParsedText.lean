import SourceAtlas.Dialect
import SourceAtlas.Syntax.Listing

/-! Parsing by looking trees up: what a parser has made of some texts stands for the parser. -/
namespace SourceAtlas

open Syntax

abbrev Parser := Dialect → List UInt8 → Node

structure ParsedText where
  dialect : Dialect
  bytes : List UInt8
  tree : Node
  deriving Repr

/-- The tree of a text in its dialect, or else in the other one, or else an empty tree. -/
def Parser.ofTexts (texts : List ParsedText) : Parser := fun dialect bytes =>
  let known := texts.filter (·.bytes == bytes)
  match known.find? (·.dialect == dialect) with
  | some text => text.tree
  | none => (known.head?.map (·.tree)).getD .empty

def Syntax.Node.ofText? (text : String) : Option Node := do
  let document := Json.Document.ofText text
  let nodes ← (document.read (Json.Draft.asList ListedNode.ofDraft)).toOption
  Node.ofList? nodes

end SourceAtlas
