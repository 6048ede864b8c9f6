import ChartParsing.Tree

/-!
# Nodes and leaves

The nodes of a tree are listed with every node before its children, and the
children from left to right.  Counting the nodes recursively gives the length
of this list, and putting down the leaves with a stack gives the leaves in it,
in its order.  Trees of any shape are meant.
-/

namespace ChartParsing.Tree

mutual

def nodes : Tree → List Tree
  | ⟨symbol, span, children⟩ => ⟨symbol, span, children⟩ :: nodesAll children

def nodesAll : List Tree → List Tree
  | [] => []
  | tree :: trees => nodes tree ++ nodesAll trees

end

theorem mem_nodes_self (tree : Tree) : tree ∈ tree.nodes := by
  rcases tree with ⟨symbol, span, children⟩
  rw [nodes]
  exact List.mem_cons_self

@[simp] theorem nodesAll_append (first second : List Tree) :
    nodesAll (first ++ second) = nodesAll first ++ nodesAll second := by
  induction first with
  | nil => rfl
  | cons tree trees ih => simp [nodesAll, ih]

mutual

theorem length_nodes : (tree : Tree) → tree.nodes.length = tree.numNodes
  | ⟨symbol, span, children⟩ => by
      rw [nodes, numNodes, List.length_cons, length_nodesAll children, Nat.add_comm]

theorem length_nodesAll : (trees : List Tree) → (nodesAll trees).length = numNodesAll trees
  | [] => rfl
  | tree :: trees => by
      rw [nodesAll, numNodesAll, List.length_append, length_nodes tree, length_nodesAll trees]

end

def leafNodes (tree : Tree) : List Tree := tree.nodes.filter isLeaf

/-- What the stack puts down: opening a node leaves the leaves on the stack as they are. -/
theorem drain_eq (stack : List Tree) :
    drain stack = ((nodesAll stack).filter isLeaf).map symbol := by
  induction stack using drain.induct with
  | case1 => simp [drain, nodesAll]
  | case2 symbol span rest ih =>
      rw [drain, ih]
      simp [nodesAll, nodes, List.filter_cons, isLeaf]
  | case3 symbol span child children rest ih =>
      rw [drain, ih]
      simp [nodesAll, nodes, isLeaf]

theorem leaves_eq (tree : Tree) : tree.leaves = tree.leafNodes.map symbol := by
  rw [leaves, drain_eq, nodesAll, nodesAll, List.append_nil]
  rfl

end ChartParsing.Tree
