import ChartParsing.Proofs.Acceptance
import Mathlib.Data.List.Forall2

/-!
# Trees read with labels

The symbols in a tree are numbers that one grammar has handed out, so trees of
two grammars can only be compared by their labels.  Nothing is lost by reading
them so, because a label has one symbol.  Read with labels, the forest of an
input lists the derivations by the productions, and no grammar comes in.
-/

namespace ChartParsing

open Outcome

structure LabelledTree where
  label : String
  span : Span
  children : List LabelledTree
  deriving Repr

/-- The tree is a derivation of the tokens of the span from the label. -/
inductive LabelledDerivation (rules : List Production) (tokens : List String) :
    String → Span → LabelledTree → Prop
  | token {lhs token : String} {position : Nat} (hrule : Normal rules ⟨lhs, [token]⟩)
      (htoken : tokens[position]? = some token) :
      LabelledDerivation rules tokens lhs ⟨position, position + 1⟩
        ⟨lhs, ⟨position, position + 1⟩, [⟨token, ⟨position, position + 1⟩, []⟩]⟩
  | pair {lhs left right : String} {start split stop : Nat} {leftTree rightTree : LabelledTree}
      (hrule : Normal rules ⟨lhs, [left, right]⟩) (hstart : start < split) (hstop : split < stop)
      (hleft : LabelledDerivation rules tokens left ⟨start, split⟩ leftTree)
      (hright : LabelledDerivation rules tokens right ⟨split, stop⟩ rightTree) :
      LabelledDerivation rules tokens lhs ⟨start, stop⟩
        ⟨lhs, ⟨start, stop⟩, [leftTree, rightTree]⟩

namespace Tree

mutual

def labelled (grammar : Grammar) : Tree → Except Fault LabelledTree
  | ⟨symbol, span, children⟩ => do
      let label ← grammar.label symbol
      let children ← labelledAll grammar children
      return ⟨label, span, children⟩

def labelledAll (grammar : Grammar) : List Tree → Except Fault (List LabelledTree)
  | [] => .ok []
  | tree :: trees => do
      let first ← labelled grammar tree
      let rest ← labelledAll grammar trees
      return first :: rest

end

section Labels

variable {grammar : Grammar} {rules : List Production}

theorem labelled_eq_ok_iff {tree : Tree} {read : LabelledTree} :
    tree.labelled grammar = .ok read ↔ grammar.label tree.symbol = .ok read.label ∧
      tree.span = read.span ∧ labelledAll grammar tree.children = .ok read.children := by
  rcases tree with ⟨symbol, span, children⟩
  rcases read with ⟨label, readSpan, readChildren⟩
  simp only [labelled, bind_eq_ok, pure, Except.pure, Except.ok.injEq, LabelledTree.mk.injEq]
  constructor
  · rintro ⟨_, hlabel, _, hchildren, rfl, rfl, rfl⟩
    exact ⟨hlabel, rfl, hchildren⟩
  · rintro ⟨hlabel, rfl, hchildren⟩
    exact ⟨_, hlabel, _, hchildren, rfl, rfl, rfl⟩

theorem labelledAll_eq_ok_iff {trees : List Tree} {reads : List LabelledTree} :
    labelledAll grammar trees = .ok reads ↔
      List.Forall₂ (fun tree read => tree.labelled grammar = .ok read) trees reads := by
  induction trees generalizing reads with
  | nil => cases reads <;> simp [labelledAll]
  | cons tree trees ih =>
      simp only [labelledAll, bind_eq_ok, pure, Except.pure, Except.ok.injEq]
      constructor
      · rintro ⟨read, hread, reads, hreads, rfl⟩
        exact .cons hread (ih.mp hreads)
      · intro h
        cases h with
        | cons hread hreads => exact ⟨_, hread, _, ih.mpr hreads, rfl⟩

theorem mem_of_labelledAll {trees : List Tree} {reads : List LabelledTree}
    (h : labelledAll grammar trees = .ok reads) {read : LabelledTree} :
    read ∈ reads ↔ ∃ tree ∈ trees, tree.labelled grammar = .ok read := by
  have hread := labelledAll_eq_ok_iff.mp h
  clear h
  induction hread with
  | nil => simp
  | cons hfirst _ ih => simp [ih, hfirst, eq_comm]

mutual

theorem labelled_inj (hgrammar : grammar.Indexes (headLabels rules) rules) :
    ∀ {tree other : Tree} {read : LabelledTree}, tree.labelled grammar = .ok read →
      other.labelled grammar = .ok read → tree = other
  | ⟨symbol, span, children⟩, ⟨otherSymbol, otherSpan, otherChildren⟩, read, htree, hother => by
      rcases labelled_eq_ok_iff.mp htree with ⟨hlabel, hspan, hchildren⟩
      rcases labelled_eq_ok_iff.mp hother with ⟨hotherLabel, hotherSpan, hotherChildren⟩
      simp only at hlabel hspan hchildren hotherLabel hotherSpan hotherChildren
      have hsymbol : some symbol = some otherSymbol := by
        rw [← hgrammar.label_eq_ok_iff.mp hlabel, hgrammar.label_eq_ok_iff.mp hotherLabel]
      rw [Option.some.inj hsymbol, hspan, hotherSpan,
        labelledAll_inj hgrammar hchildren hotherChildren]

theorem labelledAll_inj (hgrammar : grammar.Indexes (headLabels rules) rules) :
    ∀ {trees others : List Tree} {reads : List LabelledTree},
      labelledAll grammar trees = .ok reads → labelledAll grammar others = .ok reads →
      trees = others
  | [], others, reads, htrees, hothers => by
      cases htrees
      cases labelledAll_eq_ok_iff.mp hothers
      rfl
  | tree :: trees, others, reads, htrees, hothers => by
      cases labelledAll_eq_ok_iff.mp htrees with
      | cons htree hrest =>
          cases labelledAll_eq_ok_iff.mp hothers with
          | cons hother hotherRest =>
              rw [labelled_inj hgrammar htree hother,
                labelledAll_inj hgrammar (labelledAll_eq_ok_iff.mpr hrest)
                  (labelledAll_eq_ok_iff.mpr hotherRest)]

end

theorem nodup_of_labelledAll (hgrammar : grammar.Indexes (headLabels rules) rules)
    {trees : List Tree} {reads : List LabelledTree}
    (h : labelledAll grammar trees = .ok reads) (htrees : trees.Nodup) : reads.Nodup := by
  have hread := labelledAll_eq_ok_iff.mp h
  clear h
  induction hread with
  | nil => exact List.nodup_nil
  | cons hfirst hrest ih =>
      rw [List.nodup_cons] at htrees ⊢
      refine ⟨fun hmem => ?_, ih htrees.2⟩
      rcases (mem_of_labelledAll (labelledAll_eq_ok_iff.mpr hrest)).mp hmem with
        ⟨other, hother, hsame⟩
      rw [labelled_inj hgrammar hfirst hsame] at htrees
      exact htrees.1 hother

theorem exists_labelledAll {trees : List Tree}
    (h : ∀ tree ∈ trees, ∃ read, tree.labelled grammar = .ok read) :
    ∃ reads, labelledAll grammar trees = .ok reads := by
  induction trees with
  | nil => exact ⟨[], rfl⟩
  | cons tree trees ih =>
      rcases h tree (by simp) with ⟨read, hread⟩
      rcases ih fun other hother => h other (by simp [hother]) with ⟨reads, hreads⟩
      exact ⟨read :: reads,
        labelledAll_eq_ok_iff.mpr (.cons hread (labelledAll_eq_ok_iff.mp hreads))⟩

theorem labelled_node (hgrammar : grammar.Indexes (headLabels rules) rules) {label : String}
    {symbol : Symbol} (hsymbol : grammar.symbol? label = some symbol) (span : Span)
    {children : List Tree} {reads : List LabelledTree}
    (hchildren : List.Forall₂ (fun tree read => tree.labelled grammar = .ok read)
      children reads) :
    labelled grammar ⟨symbol, span, children⟩ = .ok ⟨label, span, reads⟩ :=
  labelled_eq_ok_iff.mpr
    ⟨hgrammar.label_eq_ok_iff.mpr hsymbol, rfl, labelledAll_eq_ok_iff.mpr hchildren⟩

end Labels

end Tree

/-! ## Derivations by label -/

section Derivations

variable {grammar : Grammar} {rules : List Production} {tokens : List String}
  {label : String} {span : Span}

theorem DerivationTree.lhs_mem {tree : Tree}
    (h : DerivationTree rules grammar tokens label span tree) : label ∈ headLabels rules := by
  cases h with
  | token hrule _ _ _ => exact hrule.lhs_mem
  | pair hrule _ _ _ _ _ => exact hrule.lhs_mem

theorem DerivationTree.labelled (hgrammar : grammar.Indexes (headLabels rules) rules)
    {tree : Tree} (h : DerivationTree rules grammar tokens label span tree) :
    ∃ read, tree.labelled grammar = .ok read ∧ LabelledDerivation rules tokens label span read := by
  induction h with
  | @token lhs token head terminal position hrule htoken hhead hterminal =>
      have hleaf := Tree.labelled_node hgrammar hterminal ⟨position, position + 1⟩ .nil
      exact ⟨_, Tree.labelled_node hgrammar hhead _ (.cons hleaf .nil), .token hrule htoken⟩
  | pair hrule hhead hstart hstop _ _ ihLeft ihRight =>
      rcases ihLeft with ⟨left, hleft, hleftDerivation⟩
      rcases ihRight with ⟨right, hright, hrightDerivation⟩
      exact ⟨_, Tree.labelled_node hgrammar hhead _ (.cons hleft (.cons hright .nil)),
        .pair hrule hstart hstop hleftDerivation hrightDerivation⟩

theorem LabelledDerivation.exists_tree (hgrammar : grammar.Indexes (headLabels rules) rules)
    {read : LabelledTree} (h : LabelledDerivation rules tokens label span read) :
    ∃ tree, tree.labelled grammar = .ok read ∧
      DerivationTree rules grammar tokens label span tree := by
  induction h with
  | @token lhs token position hrule htoken =>
      rcases hgrammar.exists_symbol hrule.lhs_mem with ⟨head, hhead⟩
      rcases hgrammar.exists_terminal hrule with ⟨terminal, hterminal⟩
      have hleaf := Tree.labelled_node hgrammar hterminal ⟨position, position + 1⟩ .nil
      exact ⟨_, Tree.labelled_node hgrammar hhead _ (.cons hleaf .nil),
        .token hrule htoken hhead hterminal⟩
  | pair hrule hstart hstop _ _ ihLeft ihRight =>
      rcases hgrammar.exists_symbol hrule.lhs_mem with ⟨head, hhead⟩
      rcases ihLeft with ⟨left, hleft, hleftTree⟩
      rcases ihRight with ⟨right, hright, hrightTree⟩
      exact ⟨_, Tree.labelled_node hgrammar hhead _ (.cons hleft (.cons hright .nil)),
        .pair hrule hhead hstart hstop hleftTree hrightTree⟩

end Derivations

namespace Parser

variable {σ : Type} {grammar : Grammar} {rules : List Production} {start : String}
  {tokens : List String} {observer : Observer σ} {state : σ} {outcome : Outcome σ}
  (hgrammar : grammar.Indexes (headLabels rules) rules)

include hgrammar

theorem mem_trees_of_parse
    (hparse : parse ⟨grammar, start, .unbounded⟩ observer state tokens = .ok outcome) :
    outcome.forest.trees.Nodup ∧ ∀ tree, tree ∈ outcome.forest.trees ↔
      DerivationTree rules grammar tokens start ⟨0, tokens.length⟩ tree := by
  rcases judge_of_parse hparse with ⟨hjudge, htrees⟩
  cases haccepted : outcome.verdict.accepted with
  | true =>
      rcases exact_of_judge _ hgrammar hjudge haccepted with ⟨symbol, hstart, hread, hexact⟩
      have hforest : outcome.forest.trees =
          outcome.verdict.filling.evidence.trees ⟨symbol, ⟨0, tokens.length⟩⟩ :=
        congrArg Forest.trees (Except.ok.inj (htrees.symm.trans (hread.trans hexact.readable)))
      have hlabel := (hgrammar.nonterminal?_eq_some_iff.mp hstart).1
      rw [hforest]
      refine ⟨hexact.nodup, fun tree => ?_⟩
      rw [hexact.mem_iff, Grammar.builds_iff_derivationTree hgrammar hlabel]
  | false =>
      have hforest : outcome.forest.trees = [] :=
        congrArg Forest.trees (Except.ok.inj (htrees.symm.trans (trees_of_rejected _ haccepted)))
      have hnone : ∀ tree,
          ¬ DerivationTree rules grammar tokens start ⟨0, tokens.length⟩ tree := by
        intro tree hderivation
        rcases Grammar.builds_of_derivationTree hgrammar hderivation with
          ⟨symbol, hsymbol, hbuilds⟩
        have hstart := hgrammar.nonterminal?_eq_some_iff.mpr ⟨hsymbol, hderivation.lhs_mem⟩
        have haccepts := (accepted_iff_of_judge hgrammar hjudge).mpr
          ⟨symbol, hstart, hbuilds.yields⟩
        rw [haccepted] at haccepts
        cases haccepts
      simp [hforest, hnone]

/-- Read with labels, the forest lists the derivations from the start label. -/
theorem labelled_of_parse
    (hparse : parse ⟨grammar, start, .unbounded⟩ observer state tokens = .ok outcome) :
    ∃ reads, Tree.labelledAll grammar outcome.forest.trees = .ok reads ∧ reads.Nodup ∧
      ∀ read, read ∈ reads ↔
        LabelledDerivation rules tokens start ⟨0, tokens.length⟩ read := by
  rcases mem_trees_of_parse hgrammar hparse with ⟨hnodup, hmem⟩
  have hlabelled : ∀ tree ∈ outcome.forest.trees, ∃ read, tree.labelled grammar = .ok read := by
    intro tree htree
    rcases ((hmem tree).mp htree).labelled hgrammar with ⟨read, hread, -⟩
    exact ⟨read, hread⟩
  rcases Tree.exists_labelledAll hlabelled with ⟨reads, hreads⟩
  refine ⟨reads, hreads, Tree.nodup_of_labelledAll hgrammar hreads hnodup, fun read => ?_⟩
  rw [Tree.mem_of_labelledAll hreads]
  constructor
  · rintro ⟨tree, htree, hread⟩
    rcases ((hmem tree).mp htree).labelled hgrammar with ⟨other, hother, hderivation⟩
    cases hother.symm.trans hread
    exact hderivation
  · intro hderivation
    rcases hderivation.exists_tree hgrammar with ⟨tree, hread, htree⟩
    exact ⟨tree, (hmem tree).mpr htree, hread⟩

end Parser

end ChartParsing
