import SourceAtlas.Syntax.Node

/-! Nodes below a node, and trees whose nodes nest: what a parser promises of the spans of its nodes. -/
namespace SourceAtlas.Syntax

theorem Node.nodes_eq (node : Node) : node.nodes = node :: (node.children.map Node.nodes).flatten := by
  rw [Node.nodes,List.attach_map_val]

theorem Node.mem_nodes_iff {node part : Node} :
    part ∈ node.nodes ↔ part = node ∨ ∃ child ∈ node.children, part ∈ child.nodes := by
  rw [Node.nodes_eq,List.mem_cons,← List.flatMap_def,List.mem_flatMap]

theorem Node.mem_nodes_self (node : Node) : node ∈ node.nodes := Node.mem_nodes_iff.mpr (.inl rfl)

theorem Node.mem_nodes_child {node child part : Node} (inside : child ∈ node.children)
    (below : part ∈ child.nodes) : part ∈ node.nodes := Node.mem_nodes_iff.mpr (.inr ⟨child,inside,below⟩)

theorem Node.mem_nodes_trans {tree node part : Node} (inTree : node ∈ tree.nodes)
    (below : part ∈ node.nodes) : part ∈ tree.nodes := by
  induction tree using Node.nodes.induct with
  | case1 tree ih =>
    rcases Node.mem_nodes_iff.mp inTree with rfl | ⟨child,inside,deeper⟩
    · exact below
    · exact Node.mem_nodes_child inside (ih ⟨child,inside⟩ deeper)

/-- No node of a tree ends before it starts, and each lies within the node above it. -/
structure Node.Nested (tree : Node) : Prop where
  forward : ∀ part ∈ tree.nodes, part.start ≤ part.stop
  inside : ∀ part ∈ tree.nodes, ∀ child ∈ part.children,
    part.start ≤ child.start ∧ child.stop ≤ part.stop

theorem Node.Nested.of_mem {tree node : Node} (nested : tree.Nested) (inTree : node ∈ tree.nodes) :
    node.Nested where
  forward part below := nested.forward part (Node.mem_nodes_trans inTree below)
  inside part below := nested.inside part (Node.mem_nodes_trans inTree below)

theorem Node.Nested.within {node part : Node} (nested : node.Nested) (below : part ∈ node.nodes) :
    node.start ≤ part.start ∧ part.stop ≤ node.stop := by
  induction node using Node.nodes.induct with
  | case1 node ih =>
    rcases Node.mem_nodes_iff.mp below with rfl | ⟨child,inside,deeper⟩
    · exact ⟨Nat.le_refl _,Nat.le_refl _⟩
    · have childInTree := Node.mem_nodes_child inside child.mem_nodes_self
      have outer := nested.inside node node.mem_nodes_self child inside
      have inner := ih ⟨child,inside⟩ (nested.of_mem childInTree) deeper
      exact ⟨Nat.le_trans outer.1 inner.1,Nat.le_trans inner.2 outer.2⟩

end SourceAtlas.Syntax
