/-! Syntax trees over a byte text, and places in them. A place is a node together with the nodes above
it and the siblings before each of these, so that parents and earlier siblings can be reached. -/
namespace SourceAtlas.Syntax

inductive Field
  | declaration
  | value
  | name
  | body
  | returnType
  | type
  | pattern
  | parameter
  | parameters
  | constructor
  | typeArguments
  | operator
  deriving DecidableEq, Repr

/-- A node covers the bytes from `start` up to, but not including, `stop`. `named` is false for
punctuation and keywords. `roles` are the fields under which the node above finds this one. -/
structure Node where
  kind : String
  named : Bool
  start : Nat
  stop : Nat
  roles : List Field
  children : List Node
  deriving Repr

theorem Node.sizeOf_child_lt {node child : Node} (inside : child ∈ node.children) :
    sizeOf child < sizeOf node := by
  cases node
  have := List.sizeOf_lt_of_mem inside
  simp at this ⊢
  omega

/-- A step on the way down to a place: a node above it, and the children of that node which come
before the step, nearest first. -/
structure Ancestor where
  node : Node
  before : List Node
  deriving Repr

/-- A node with the way down to it, innermost step first. -/
structure Place where
  node : Node
  above : List Ancestor
  deriving Repr

namespace Place

def root (tree : Node) : Place := ⟨tree, []⟩

def parent? (place : Place) : Option Place :=
  match place.above with
  | [] => none
  | step :: rest => some ⟨step.node, rest⟩

/-- The siblings before a place, nearest first. -/
def earlier (place : Place) : List Node :=
  match place.above with
  | [] => []
  | step :: _ => step.before

/-- The places of the nodes in `children`, which follow the siblings `before`. -/
def childrenFrom (place : Place) (before : List Node) : List Node → List Place
  | [] => []
  | child :: rest =>
    ⟨child, ⟨place.node, before⟩ :: place.above⟩ :: place.childrenFrom (child :: before) rest

def children (place : Place) : List Place := place.childrenFrom [] place.node.children

def namedChildren (place : Place) : List Place := place.children.filter (·.node.named)

/-- The first child in a given role. -/
def child? (place : Place) (field : Field) : Option Place :=
  place.children.find? fun child => field ∈ child.node.roles

theorem mem_of_mem_childrenFrom {place child : Place} {before nodes : List Node}
    (inside : child ∈ place.childrenFrom before nodes) : child.node ∈ nodes := by
  induction nodes generalizing before with
  | nil => simp [childrenFrom] at inside
  | cons node rest ih =>
    rcases List.mem_cons.1 inside with rfl | later
    · simp
    · exact List.mem_cons_of_mem _ (ih later)

theorem node_mem_of_mem_children {place child : Place} (inside : child ∈ place.children) :
    child.node ∈ place.node.children := mem_of_mem_childrenFrom inside

theorem map_node_childrenFrom (place : Place) (before nodes : List Node) :
    (place.childrenFrom before nodes).map (·.node) = nodes := by
  induction nodes generalizing before with
  | nil => rfl
  | cons node rest ih => rw [childrenFrom, List.map_cons, ih]

theorem map_node_children (place : Place) : place.children.map (·.node) = place.node.children :=
  map_node_childrenFrom place [] place.node.children

theorem map_node_namedChildren (place : Place) :
    place.namedChildren.map (·.node) = place.node.children.filter (·.named) := by
  rw [← map_node_children, List.filter_map]
  rfl

theorem map_node_child? (place : Place) (field : Field) :
    (place.child? field).map (·.node) = place.node.children.find? fun child => field ∈ child.roles := by
  rw [← map_node_children, List.find?_map]
  rfl

theorem sizeOf_lt_of_mem_children {place child : Place} (inside : child ∈ place.children) :
    sizeOf child.node < sizeOf place.node :=
  Node.sizeOf_child_lt (node_mem_of_mem_children inside)

theorem sizeOf_lt_of_mem_namedChildren {place child : Place} (inside : child ∈ place.namedChildren) :
    sizeOf child.node < sizeOf place.node :=
  sizeOf_lt_of_mem_children (List.mem_filter.1 inside).1

theorem sizeOf_lt_of_child? {place child : Place} {field : Field}
    (found : place.child? field = some child) : sizeOf child.node < sizeOf place.node :=
  sizeOf_lt_of_mem_children (List.mem_of_find?_eq_some found)

end Place

/-- A node and all nodes below it, each before the nodes below itself, in source order. -/
def Node.nodes (node : Node) : List Node :=
  node :: (node.children.attach.map fun child => Node.nodes child.1).flatten
termination_by node
decreasing_by exact Node.sizeOf_child_lt child.2

/-- A place and all places below it, each before the places below itself, in source order. -/
def Place.places (place : Place) : List Place :=
  place :: (place.children.attach.map fun child => Place.places child.1).flatten
termination_by sizeOf place.node
decreasing_by exact Place.sizeOf_lt_of_mem_children child.2

end SourceAtlas.Syntax
