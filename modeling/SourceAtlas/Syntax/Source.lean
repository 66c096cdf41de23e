import SourceAtlas.Path
import SourceAtlas.Syntax.Node
import SourceAtlas.Text.Utf8

/-! Source files: a byte text with its path and its syntax tree. -/
namespace SourceAtlas.Syntax

structure SourceFile where
  path : Path
  bytes : List UInt8
  tree : Node
  deriving Repr

namespace SourceFile

def root (file : SourceFile) : Place := .root file.tree

/-- The bytes from `start` up to, but not including, `stop`. -/
def slice (file : SourceFile) (start stop : Nat) : List UInt8 :=
  (file.bytes.drop start).take (stop - start)

/-- The text of a node, empty if its bytes are not UTF-8. -/
def text (file : SourceFile) (node : Node) : String :=
  match Utf8.decode? (file.slice node.start node.stop) with
  | some characters => String.ofList characters
  | none => ""

/-- The line of a node, counted from 1. -/
def line (file : SourceFile) (node : Node) : Nat :=
  1 + (file.bytes.take node.start).count 0x0A

end SourceFile

end SourceAtlas.Syntax
