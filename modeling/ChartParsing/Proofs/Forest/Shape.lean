import ChartParsing.Proofs.Forest.Limits
import ChartParsing.Proofs.Nodes

/-!
# The shape of the trees that are read

Evidence that makes no sense can still be read at times.  Even so the trees
have the shape of a derivation: a token has a leaf below it, a longer span has
two nodes that divide it, and so the leaves are the tokens of the span, each
once and in order.  The shape is kept by every way to make a node, whether the
trees of the parts were cut or come from a memo.
-/

namespace ChartParsing

namespace Tree

/-- The tree has the symbol and span of the constituent, and divides it down to the tokens. -/
inductive Covers : Constituent → Tree → Prop
  | token {symbol terminal : Symbol} {position : Nat} :
      Covers ⟨symbol, ⟨position, position + 1⟩⟩
        ⟨symbol, ⟨position, position + 1⟩, [⟨terminal, ⟨position, position + 1⟩, []⟩]⟩
  | pair {symbol left right : Symbol} {start split stop : Nat} {leftTree rightTree : Tree}
      (hleft : Covers ⟨left, ⟨start, split⟩⟩ leftTree)
      (hright : Covers ⟨right, ⟨split, stop⟩⟩ rightTree) :
      Covers ⟨symbol, ⟨start, stop⟩⟩ (branch ⟨symbol, ⟨start, stop⟩⟩ leftTree rightTree)

/--
The node is a leaf over a token, or has one child, which is a leaf over the same token, or has two
children that are no leaves and divide its span.
-/
def WellShaped (node : Tree) : Prop :=
  match node.children with
  | [] => node.span.stop = node.span.start + 1
  | [child] =>
      child.isLeaf = true ∧ child.span = node.span ∧ node.span.stop = node.span.start + 1
  | [left, right] =>
      left.isLeaf = false ∧ right.isLeaf = false ∧
        ∃ split, node.span.start < split ∧ split < node.span.stop ∧
          left.span = ⟨node.span.start, split⟩ ∧ right.span = ⟨split, node.span.stop⟩
  | _ => False

section Covers

variable {root : Constituent} {tree : Tree}

theorem Covers.symbol_eq (h : Covers root tree) : tree.symbol = root.symbol := by
  cases h <;> rfl

theorem Covers.span_eq (h : Covers root tree) : tree.span = root.span := by
  cases h <;> rfl

theorem Covers.isLeaf_eq (h : Covers root tree) : tree.isLeaf = false := by
  cases h <;> rfl

theorem Covers.start_lt (h : Covers root tree) : root.span.start < root.span.stop := by
  induction h with
  | token => exact Nat.lt_succ_self _
  | pair hleft hright ihLeft ihRight => exact Nat.lt_trans ihLeft ihRight

theorem nodes_branch (left right : Tree) :
    (branch root left right).nodes = branch root left right :: (left.nodes ++ right.nodes) := by
  simp [branch, nodes, nodesAll]

theorem leafNodes_branch (left right : Tree) :
    (branch root left right).leafNodes = left.leafNodes ++ right.leafNodes := by
  rw [leafNodes, nodes_branch, List.filter_cons_of_neg (by simp [branch, isLeaf]),
    List.filter_append]
  rfl

theorem Covers.wellShaped (h : Covers root tree) : ∀ node ∈ tree.nodes, node.WellShaped := by
  induction h with
  | token =>
      intro node hnode
      simp only [nodes, nodesAll, List.append_nil, List.mem_cons, List.not_mem_nil,
        or_false] at hnode
      rcases hnode with rfl | rfl
      · exact ⟨rfl, rfl, rfl⟩
      · rfl
  | @pair symbol left right start split stop leftTree rightTree hleft hright ihLeft ihRight =>
      intro node hnode
      rw [nodes_branch, List.mem_cons, List.mem_append] at hnode
      rcases hnode with rfl | hnode | hnode
      · exact ⟨hleft.isLeaf_eq, hright.isLeaf_eq, split, hleft.start_lt, hright.start_lt,
          hleft.span_eq, hright.span_eq⟩
      · exact ihLeft node hnode
      · exact ihRight node hnode

theorem Covers.map_span_leafNodes (h : Covers root tree) :
    tree.leafNodes.map span =
      (List.range' root.span.start root.span.width).map fun position =>
        ⟨position, position + 1⟩ := by
  induction h with
  | @token symbol terminal position =>
      have hwidth : Span.width ⟨position, position + 1⟩ = 1 := by
        simp [Span.width]
      rw [hwidth]
      simp [leafNodes, nodes, nodesAll, List.filter_cons, isLeaf]
  | @pair symbol left right start split stop leftTree rightTree hleft hright ihLeft ihRight =>
      have hstart : start < split := hleft.start_lt
      have hstop : split < stop := hright.start_lt
      have hpositions := @List.range'_append_1 start (split - start) (stop - split)
      rw [Nat.add_sub_cancel' (Nat.le_of_lt hstart), ← Nat.sub_add_comm (Nat.le_of_lt hstart),
        Nat.add_sub_cancel' (Nat.le_of_lt hstop)] at hpositions
      simp only [Span.width] at ihLeft ihRight ⊢
      rw [leafNodes_branch, List.map_append, ihLeft, ihRight, ← List.map_append, hpositions]

theorem Covers.length_leaves (h : Covers root tree) :
    tree.leaves.length = root.span.width := by
  rw [leaves_eq, List.length_map, ← List.length_map (f := span), h.map_span_leafNodes,
    List.length_map, List.length_range']

theorem Covers.numNodes_add_one (h : Covers root tree) :
    tree.numNodes + 1 = 3 * root.span.width := by
  induction h with
  | @token symbol terminal position =>
      simp only [numNodes, numNodesAll, Span.width]
      omega
  | @pair symbol left right start split stop leftTree rightTree hleft hright ihLeft ihRight =>
      have hstart : start < split := hleft.start_lt
      have hstop : split < stop := hright.start_lt
      simp only [branch, numNodes, numNodesAll, Span.width] at ihLeft ihRight ⊢
      omega

end Covers

end Tree

namespace Forest

variable {evidence : Evidence} {cap : Option Nat} {root : Constituent} {tree : Tree}
  {forest final : Forest}

theorem mem_grow {lefts rights : Forest} (h : tree ∈ (forest.grow cap root lefts rights).trees) :
    tree ∈ forest.trees ∨
      ∃ left ∈ lefts.trees, ∃ right ∈ rights.trees, tree = Tree.branch root left right := by
  cases cap with
  | none =>
      rcases List.mem_append.mp h with hold | hnew
      · exact .inl hold
      · exact .inr (mem_product.mp hnew)
  | some cap =>
      rcases List.mem_append.mp h with hold | hnew
      · exact .inl hold
      · rw [productUpTo_eq_take] at hnew
        exact .inr (mem_product.mp (List.mem_of_mem_take hnew))

theorem covers_of_ofToken {witness : Witness} (hstop : root.span.stop = root.span.start + 1)
    (h : ofToken (m := Except ExtractionError) cap root witness = .ok forest) :
    ∀ tree ∈ forest.trees, Tree.Covers root tree := by
  rcases root with ⟨symbol, start, stop⟩
  simp only at hstop
  subst hstop
  unfold ofToken at h
  split at h
  · cases h
    nofun
  · cases witness with
    | split position left right => cases h
    | leaf terminal =>
        cases hleaf : Tree.leaf terminal start with
        | error fault =>
            simp only [hleaf] at h
            cases h
        | ok leaf =>
            simp only [hleaf] at h
            cases h
            intro tree hmem
            rw [List.mem_singleton] at hmem
            rw [hmem, Tree.eq_of_leaf hleaf]
            exact .token

theorem covers_of_ofSplits
    {part : (part : Constituent) → part.span.width < root.span.width →
      Except ExtractionError Forest}
    (hparts : ∀ constituent hlt found, part constituent hlt = .ok found →
      ∀ tree ∈ found.trees, Tree.Covers constituent tree)
    {witnesses : List Witness} (h : ofSplits cap root part witnesses forest = .ok final)
    (hforest : ∀ tree ∈ forest.trees, Tree.Covers root tree) :
    ∀ tree ∈ final.trees, Tree.Covers root tree := by
  induction witnesses generalizing forest with
  | nil =>
      cases h
      exact hforest
  | cons witness witnesses ih =>
      cases hfull : forest.isFull cap with
      | true =>
          rw [ofSplits_cons_of_full hfull] at h
          cases h
          exact hforest
      | false =>
          obtain ⟨left, right, hsplit, lefts, rights, hlefts, hrights, h⟩ :=
            exists_parts_of_ofSplits hfull h
          apply ih h
          intro tree hmem
          rcases mem_grow hmem with hold | ⟨leftTree, hleft, rightTree, hright, rfl⟩
          · exact hforest tree hold
          · have hleftCovers := hparts _ _ _ hlefts leftTree hleft
            have hrightCovers := hparts _ _ _ hrights rightTree hright
            rcases left with ⟨left, leftSpan⟩
            rcases right with ⟨right, rightSpan⟩
            obtain ⟨position, -, -, -, rfl, rfl⟩ := Witness.split_of_parts hsplit
            exact .pair hleftCovers hrightCovers

theorem covers_of_read {root : Constituent} {forest : Forest}
    (h : read evidence cap root = .ok forest) :
    ∀ tree ∈ forest.trees, Tree.Covers root tree := by
  rw [read] at h
  obtain ⟨witness, witnesses, -, ⟨htoken, h⟩ | ⟨-, h⟩⟩ := exists_witnesses_of_ofParts h
  · exact covers_of_ofToken (Span.stop_eq_of_isToken htoken) h
  · apply covers_of_ofSplits (fun _ _ _ hread => covers_of_read hread) h
    intro tree hmem
    exact absurd hmem List.not_mem_nil
termination_by root.span.width

end Forest

/--
Whatever the evidence, the limits and the extractions before: a tree that is returned is over the
constituent asked for, all its nodes are well shaped, and its leaves are the tokens of the span.
-/
theorem Extractor.extract_wellShaped {evidence : Evidence} {requests : List Request}
    {root : Constituent} {forest : Forest} {tree : Tree}
    (h : (((ofEvidence evidence).after requests).extract root).1 = .ok forest)
    (hmem : tree ∈ forest.trees) :
    tree.symbol = root.symbol ∧ tree.span = root.span ∧ root.span.start < root.span.stop ∧
      (∀ node ∈ tree.nodes, node.WellShaped) ∧
      tree.leaves.length = root.span.stop - root.span.start ∧
      tree.leaves = (tree.nodes.filter Tree.isLeaf).map Tree.symbol ∧
      (tree.nodes.filter Tree.isLeaf).map Tree.span =
        (List.range' root.span.start (root.span.stop - root.span.start)).map
          (fun position => ⟨position, position + 1⟩) ∧
      tree.numNodes = tree.nodes.length ∧
      tree.numNodes = 3 * (root.span.stop - root.span.start) - 1 := by
  rw [extract_after] at h
  have hcovers := Forest.covers_of_read h tree hmem
  have hnumNodes := hcovers.numNodes_add_one
  refine ⟨hcovers.symbol_eq, hcovers.span_eq, hcovers.start_lt, hcovers.wellShaped,
    hcovers.length_leaves, tree.leaves_eq, hcovers.map_span_leafNodes, tree.length_nodes.symm, ?_⟩
  rw [Span.width] at hnumNodes
  omega

theorem Extractor.extract_threefold_wellShaped :
    ∃ forest tree,
      (((ofEvidence .threefold).after [.restrict ⟨some 1, none⟩,
        .extract ⟨⟨1, by decide⟩, ⟨0, 2⟩⟩]).extract ⟨⟨1, by decide⟩, ⟨0, 3⟩⟩).1 = .ok forest ∧
      tree ∈ forest.trees ∧ (∀ node ∈ tree.nodes, node.WellShaped) ∧ tree.numNodes = 8 := by
  have htree : (((ofEvidence .threefold).after [.restrict ⟨some 1, none⟩,
      .extract ⟨⟨1, by decide⟩, ⟨0, 2⟩⟩]).extract ⟨⟨1, by decide⟩, ⟨0, 3⟩⟩).1.toOption.map
        (fun forest => forest.trees.isEmpty) = some false := by
    decide +kernel
  cases hforest : (((ofEvidence .threefold).after [.restrict ⟨some 1, none⟩,
      .extract ⟨⟨1, by decide⟩, ⟨0, 2⟩⟩]).extract ⟨⟨1, by decide⟩, ⟨0, 3⟩⟩).1 with
  | error error =>
      rw [hforest] at htree
      cases htree
  | ok forest =>
      rw [hforest] at htree
      have hne : forest.trees ≠ [] := by
        intro heq
        simp [Except.toOption, heq] at htree
      obtain ⟨tree, hmem⟩ := List.exists_mem_of_ne_nil forest.trees hne
      obtain ⟨-, -, -, hshape, -, -, -, -, hnumNodes⟩ := extract_wellShaped hforest hmem
      exact ⟨forest, tree, rfl, hmem, hshape, hnumNodes⟩

end ChartParsing
