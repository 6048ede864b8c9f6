import ChartParsing.Proofs.Nodes
import Mathlib.Logic.Function.Iterate

/-!
# The frontier of a tree

The frontier is the row of leaves under a tree, read off by recursion over its
children.  The leaves that a stack puts down are the frontier: a step of the
stack takes one node off and leaves what is put down and still on the stack,
taken together, as it was.

A symbol may stand on many leaves.  So that each leaf can be told from the
others it has an address, the way from the root as a list of child numbers;
addresses ascend from left to right.
-/

namespace ChartParsing.Tree

mutual

def frontier : Tree → List Symbol
  | ⟨symbol, _, []⟩ => [symbol]
  | ⟨_, _, child :: children⟩ => frontierAll (child :: children)

def frontierAll : List Tree → List Symbol
  | [] => []
  | tree :: trees => frontier tree ++ frontierAll trees

end

theorem frontierAll_eq (trees : List Tree) : frontierAll trees = trees.flatMap frontier := by
  induction trees with
  | nil => rfl
  | cons tree trees ih => rw [frontierAll, ih, List.flatMap_cons]

theorem frontierAll_append (first second : List Tree) :
    frontierAll (first ++ second) = frontierAll first ++ frontierAll second := by
  simp [frontierAll_eq]

theorem drain_eq_frontierAll (stack : List Tree) : drain stack = frontierAll stack := by
  induction stack using drain.induct with
  | case1 => simp [drain, frontierAll]
  | case2 symbol span rest ih => simp [drain, frontierAll, frontier, ih]
  | case3 symbol span child children rest ih =>
      rw [drain, ih, frontierAll_append]
      simp [frontierAll, frontier]

/-! ## The stack step by step -/

/-- The nodes still on the stack, the top first, and the symbols put down so far. -/
structure Unloading where
  stack : List Tree
  put : List Symbol

namespace Unloading

def start (tree : Tree) : Unloading := ⟨[tree], []⟩

def step : Unloading → Unloading
  | ⟨[], put⟩ => ⟨[], put⟩
  | ⟨⟨symbol, _, []⟩ :: rest, put⟩ => ⟨rest, put ++ [symbol]⟩
  | ⟨⟨_, _, child :: children⟩ :: rest, put⟩ => ⟨child :: children ++ rest, put⟩

theorem yield_step (state : Unloading) :
    state.step.put ++ drain state.step.stack = state.put ++ drain state.stack := by
  rcases state with ⟨_ | ⟨⟨symbol, span, _ | ⟨child, children⟩⟩, rest⟩, put⟩ <;>
    simp [step, drain]

/-- The stack may grow in a step, but the nodes in it are one fewer. -/
theorem numNodesAll_step (state : Unloading) :
    numNodesAll state.step.stack = numNodesAll state.stack - 1 := by
  rcases state with ⟨_ | ⟨⟨symbol, span, _ | ⟨child, children⟩⟩, rest⟩, put⟩
  · rfl
  · simp [step, numNodesAll, numNodes]
  · simp [step, numNodesAll, numNodes, numNodesAll_append]
    omega

theorem iterate_step (tree : Tree) (count : Nat) :
    (step^[count] (start tree)).put ++ drain (step^[count] (start tree)).stack = tree.leaves ∧
      numNodesAll (step^[count] (start tree)).stack = tree.numNodes - count := by
  induction count with
  | zero => simp [start, leaves, numNodesAll]
  | succ count ih =>
      rw [Function.iterate_succ_apply', yield_step, numNodesAll_step, ih.1, ih.2]
      exact ⟨rfl, by omega⟩

end Unloading

theorem numNodes_pos (tree : Tree) : 0 < tree.numNodes := by
  cases tree
  simp only [numNodes]
  omega

theorem numNodesAll_eq_zero {trees : List Tree} : numNodesAll trees = 0 ↔ trees = [] := by
  cases trees with
  | nil => simp [numNodesAll]
  | cons tree trees =>
      have hpos := tree.numNodes_pos
      simp [numNodesAll]
      omega

theorem Unloading.stack_iterate_eq_nil {tree : Tree} {count : Nat} :
    (step^[count] (start tree)).stack = [] ↔ tree.numNodes ≤ count := by
  rw [← numNodesAll_eq_zero, (iterate_step tree count).2]
  omega

/-! ## Addresses of leaves -/

def descend? : Tree → List Nat → Option Tree
  | tree, [] => some tree
  | tree, index :: address => tree.children[index]?.bind fun child => descend? child address

mutual

def leafAddresses : Tree → List (List Nat)
  | ⟨_, _, []⟩ => [[]]
  | ⟨_, _, child :: children⟩ => leafAddressesFrom 0 (child :: children)

def leafAddressesFrom (index : Nat) : List Tree → List (List Nat)
  | [] => []
  | tree :: trees =>
      (leafAddresses tree).map (index :: ·) ++ leafAddressesFrom (index + 1) trees

end

mutual

theorem mem_leafAddresses : (tree : Tree) → (address : List Nat) →
    (address ∈ tree.leafAddresses ↔ ∃ node, tree.descend? address = some node ∧ node.isLeaf)
  | ⟨symbol, span, []⟩, address => by
      cases address <;> simp [leafAddresses, descend?, isLeaf]
  | ⟨symbol, span, child :: children⟩, [] => by
      simp [leafAddresses, mem_leafAddressesFrom (child :: children), descend?, isLeaf]
  | ⟨symbol, span, child :: children⟩, index :: address => by
      simp only [leafAddresses, mem_leafAddressesFrom (child :: children), descend?,
        Option.bind_eq_some_iff, Nat.zero_add]
      constructor
      · rintro ⟨_, _, tree, haddress, htree, node, hnode⟩
        cases haddress
        exact ⟨node, ⟨tree, htree, hnode.1⟩, hnode.2⟩
      · rintro ⟨node, ⟨tree, htree, hnode⟩, hleaf⟩
        exact ⟨index, address, tree, rfl, htree, node, hnode, hleaf⟩

theorem mem_leafAddressesFrom : (trees : List Tree) → (first : Nat) → (address : List Nat) →
    (address ∈ leafAddressesFrom first trees ↔ ∃ index rest tree,
      address = (first + index) :: rest ∧ trees[index]? = some tree ∧
        ∃ node, tree.descend? rest = some node ∧ node.isLeaf)
  | [], first, address => by simp [leafAddressesFrom]
  | tree :: trees, first, address => by
      simp only [leafAddressesFrom, List.mem_append, List.mem_map, mem_leafAddresses tree,
        mem_leafAddressesFrom trees]
      constructor
      · rintro (⟨rest, hrest, rfl⟩ | ⟨index, rest, other, rfl, hother, hrest⟩)
        · exact ⟨0, rest, tree, rfl, rfl, hrest⟩
        · exact ⟨index + 1, rest, other, by rw [Nat.add_assoc, Nat.add_comm 1], hother, hrest⟩
      · rintro ⟨_ | index, rest, other, rfl, hother, hrest⟩
        · cases hother
          exact .inl ⟨rest, hrest, rfl⟩
        · exact .inr ⟨index, rest, other, by rw [Nat.add_assoc, Nat.add_comm 1], hother, hrest⟩

end

mutual

theorem pairwise_leafAddresses : (tree : Tree) → tree.leafAddresses.Pairwise (· < ·)
  | ⟨_, _, []⟩ => by simp [leafAddresses]
  | ⟨_, _, child :: children⟩ => by
      rw [leafAddresses]
      exact pairwise_leafAddressesFrom (child :: children) 0

theorem pairwise_leafAddressesFrom : (trees : List Tree) → (first : Nat) →
    (leafAddressesFrom first trees).Pairwise (· < ·)
  | [], first => .nil
  | tree :: trees, first => by
      rw [leafAddressesFrom, List.pairwise_append, List.pairwise_map]
      refine ⟨(pairwise_leafAddresses tree).imp fun h => ?_,
        pairwise_leafAddressesFrom trees (first + 1), ?_⟩
      · exact List.cons_lt_cons_iff.mpr (.inr ⟨rfl, h⟩)
      · -- The leaves of later children have a greater number in front.
        intro address haddress later hlater
        obtain ⟨rest, -, rfl⟩ := List.mem_map.mp haddress
        obtain ⟨index, other, -, rfl, -⟩ := (mem_leafAddressesFrom trees _ later).mp hlater
        exact List.cons_lt_cons_iff.mpr (.inl (by omega))

end

mutual

theorem map_descend?_leafAddresses : (tree : Tree) →
    tree.leafAddresses.map (fun address => (tree.descend? address).map symbol) =
      tree.frontier.map some
  | ⟨symbol, span, []⟩ => by simp [leafAddresses, frontier, descend?]
  | ⟨symbol, span, child :: children⟩ => by
      have hchildren := map_descend?_leafAddressesFrom (child :: children) 0
        ⟨symbol, span, child :: children⟩ fun index => by simp
      rw [leafAddresses, hchildren]
      simp [frontier]

theorem map_descend?_leafAddressesFrom : (trees : List Tree) → (first : Nat) → (root : Tree) →
    (∀ index, root.children[first + index]? = trees[index]?) →
    (leafAddressesFrom first trees).map (fun address => (root.descend? address).map symbol) =
      (frontierAll trees).map some
  | [], first, root, _ => rfl
  | tree :: trees, first, root, h => by
      have hfirst : root.children[first]? = some tree := h 0
      have hrest := map_descend?_leafAddressesFrom trees (first + 1) root fun index => by
        rw [Nat.add_assoc, Nat.add_comm 1]
        exact h (index + 1)
      rw [leafAddressesFrom, frontierAll, List.map_append, List.map_append, hrest,
        ← map_descend?_leafAddresses tree, List.map_map]
      simp [descend?, hfirst]

end

/-! ## The leaves -/

theorem frontier_eq_leaves : frontier = leaves := by
  funext tree
  simp [leaves, drain_eq_frontierAll, frontierAll]

theorem leaves_eq_flatMap (tree : Tree) :
    tree.leaves = if tree.isLeaf then [tree.symbol] else tree.children.flatMap leaves := by
  rw [← frontier_eq_leaves]
  rcases tree with ⟨symbol, span, _ | ⟨child, children⟩⟩
  · simp [frontier, isLeaf]
  · simp [frontier, isLeaf, frontierAll_eq]

/--
The stack is empty after one step for each node, and not before; what it has put down then are
the symbols of the leaves, one for each address of a leaf, in the order of the addresses.
-/
theorem leaves_eq_frontier (tree : Tree) :
    tree.leaves = tree.frontier ∧
    (tree.leaves = if tree.isLeaf then [tree.symbol] else tree.children.flatMap leaves) ∧
    Unloading.step^[tree.numNodes] (.start tree) = ⟨[], tree.leaves⟩ ∧
    (∀ count, (Unloading.step^[count] (.start tree)).stack = [] → tree.numNodes ≤ count) ∧
    ∃ addresses : List (List Nat), addresses.Pairwise (· < ·) ∧
      (∀ address, address ∈ addresses ↔
        ∃ node, tree.descend? address = some node ∧ node.isLeaf) ∧
      addresses.map (fun address => (tree.descend? address).map symbol) =
        tree.leaves.map some := by
  have hstack := Unloading.stack_iterate_eq_nil.mpr (Nat.le_refl tree.numNodes)
  have hput := (Unloading.iterate_step tree tree.numNodes).1
  rw [hstack, drain, List.append_nil] at hput
  refine ⟨by rw [frontier_eq_leaves], leaves_eq_flatMap tree, ?_,
    fun count => Unloading.stack_iterate_eq_nil.mp, tree.leafAddresses,
    pairwise_leafAddresses tree, mem_leafAddresses tree, ?_⟩
  · rw [← hput, ← hstack]
  · rw [← frontier_eq_leaves]
    exact map_descend?_leafAddresses tree

end ChartParsing.Tree
