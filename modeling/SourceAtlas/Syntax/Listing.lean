import SourceAtlas.Json.Decode
import SourceAtlas.Syntax.Node
import SourceAtlas.Text.Parts

/-! Syntax trees as flat lists: every node before the nodes below it, in source order, each with the
number of its children. -/
namespace SourceAtlas.Syntax

/-- A node in a list. `roles` holds the names of its fields with blanks between them, and `named` is 1
for a named node. -/
structure ListedNode where
  kind : String
  named : Nat
  start : Nat
  stop : Nat
  roles : String
  childCount : Nat
  deriving DecidableEq, Repr

def Field.ofName? : String → Option Field
  | "declaration" => some declaration
  | "value" => some value
  | "name" => some name
  | "body" => some body
  | "return_type" => some returnType
  | "type" => some type
  | "pattern" => some pattern
  | "parameter" => some parameter
  | "parameters" => some parameters
  | "constructor" => some constructor
  | "type_arguments" => some typeArguments
  | "operator" => some operator
  | _ => none

namespace ListedNode

open Json (Draft Slot Result)

def slots : List (Slot ListedNode) := [
  .of "kind" true Draft.asText fun node kind => { node with kind },
  .of "named" true Draft.asNatural fun node named => { node with named },
  .of "start" true Draft.asNatural fun node start => { node with start },
  .of "stop" true Draft.asNatural fun node stop => { node with stop },
  .of "roles" true Draft.asText fun node roles => { node with roles },
  .of "childCount" true Draft.asNatural fun node childCount => { node with childCount }]

def ofDraft : Draft → Result ListedNode := Draft.asRecord slots ⟨"", 0, 0, 0, "", 0⟩

def fields (listed : ListedNode) : List Field :=
  (Text.splitAt ' ' listed.roles.toList).filterMap fun name => Field.ofName? (String.ofList name)

def toNode (listed : ListedNode) (children : List Node) : Node :=
  ⟨listed.kind, listed.named == 1, listed.start, listed.stop, listed.fields, children⟩

end ListedNode

/-- Puts a node above the first of the trees after it, as many as it has children. -/
def gather (listed : ListedNode) (trees : List Node) : List Node :=
  listed.toNode (trees.take listed.childCount) :: trees.drop listed.childCount

def Node.ofList? (nodes : List ListedNode) : Option Node :=
  match nodes.foldr gather [] with
  | [tree] => some tree
  | _ => none

def Node.empty : Node := ⟨"program", true, 0, 0, [], []⟩

end SourceAtlas.Syntax
