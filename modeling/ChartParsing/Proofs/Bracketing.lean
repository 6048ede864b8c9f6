import ChartParsing.Proofs.Forest.Shape
import ChartParsing.Proofs.Labelling
import ChartParsing.Proofs.Quoting
import ChartParsing.Proofs.Totality

/-!
# Trees in brackets

From its text a tree can be told, but for the spans, if the labels are free of
the blanks and parentheses that the text has between them.  Labels may be
empty, and a leaf is not marked as one, so a text alone does not say where it
ends; it ends where a blank or a closing parenthesis follows.  Two texts are
therefore compared together with what comes after them.
-/

namespace ChartParsing

open Outcome

namespace Tree

/-- The trees have one shape and the same symbol at every node; the spans may differ. -/
inductive Alike : Tree → Tree → Prop
  | node {symbol : Symbol} {span otherSpan : Span} {children others : List Tree}
      (hchildren : List.Forall₂ Alike children others) :
      Alike ⟨symbol, span, children⟩ ⟨symbol, otherSpan, others⟩

def marks : List Char := [' ', '(', ')']

/-- A text can end before this: nothing follows, or a character that no label goes on with. -/
def Ends (rest : List Char) : Prop := ∀ c ∈ rest.head?, c = ' ' ∨ c = ')'

end Tree

def Grammar.PlainLabels (grammar : Grammar) : Prop :=
  ∀ symbol label, grammar.label symbol = .ok label → ∀ c ∈ label.toList, c ∉ Tree.marks

namespace Tree

/-! ## Texts and what follows them -/

section Words

variable {word other rest otherRest : List Char}

theorem ends_nil : Ends [] := by
  simp [Ends]

theorem ends_blank : Ends (' ' :: rest) := by
  simp [Ends]

theorem ends_close : Ends (')' :: rest) := by
  simp [Ends]

theorem Ends.mem_marks (h : Ends rest) : ∀ c ∈ rest.head?, c ∈ marks := by
  intro c hc
  rcases h c hc with rfl | rfl <;> simp [marks]

theorem append_ne_open (hword : ∀ c ∈ word, c ∉ marks) (hrest : Ends rest) :
    word ++ rest ≠ '(' :: other := by
  intro h
  cases word with
  | nil =>
      rw [List.nil_append] at h
      rw [h] at hrest
      rcases hrest '(' rfl with hc | hc <;> cases hc
  | cons c word =>
      rw [List.cons_append, List.cons.injEq] at h
      exact hword c (by simp) (by simp [h.1, marks])

end Words

section Texts

variable {grammar : Grammar} {symbol : Symbol} {span : Span} {tree : Tree} {trees : List Tree}
  {written : String}

theorem exists_of_text_node {child : Tree} {children : List Tree}
    (h : text grammar ⟨symbol, span, child :: children⟩ = .ok written) :
    ∃ label inner, grammar.label symbol = .ok label ∧
      textAll grammar (child :: children) = .ok inner ∧
      written.toList = '(' :: (label.toList ++ (inner.toList ++ [')'])) := by
  rw [text] at h
  rcases bind_eq_ok.mp h with ⟨label, hlabel, h⟩
  rcases bind_eq_ok.mp h with ⟨inner, hinner, h⟩
  cases h
  refine ⟨label, inner, hlabel, hinner, ?_⟩
  simp only [String.toList_append, List.append_assoc]
  rfl

theorem exists_of_textAll_cons (h : textAll grammar (tree :: trees) = .ok written) :
    ∃ first rest, tree.text grammar = .ok first ∧ textAll grammar trees = .ok rest ∧
      written.toList = ' ' :: (first.toList ++ rest.toList) := by
  rw [textAll] at h
  rcases bind_eq_ok.mp h with ⟨first, hfirst, h⟩
  rcases bind_eq_ok.mp h with ⟨rest, hrest, h⟩
  cases h
  refine ⟨first, rest, hfirst, hrest, ?_⟩
  simp only [String.toList_append, List.append_assoc]
  rfl

theorem ends_of_textAll (h : textAll grammar trees = .ok written) (rest : List Char) :
    Ends (written.toList ++ ')' :: rest) := by
  cases trees with
  | nil =>
      cases h
      exact ends_close
  | cons tree trees =>
      rcases exists_of_textAll_cons h with ⟨first, others, -, -, hwritten⟩
      rw [hwritten]
      exact ends_blank

end Texts

/-! ## One text, one tree -/

section Reading

variable {grammar : Grammar} {rules : List Production}

theorem symbol_eq_of_labels (hgrammar : grammar.Indexes (headLabels rules) rules)
    (hplain : grammar.PlainLabels) {symbol other : Symbol} {label otherLabel : String}
    {rest otherRest : List Char} (hlabel : grammar.label symbol = .ok label)
    (hother : grammar.label other = .ok otherLabel) (hrest : Ends rest)
    (hotherRest : Ends otherRest) (h : label.toList ++ rest = otherLabel.toList ++ otherRest) :
    symbol = other ∧ rest = otherRest := by
  have hparts := Text.append_inj_of_marks (hplain symbol label hlabel)
    (hplain other otherLabel hother) hrest.mem_marks hotherRest.mem_marks h
  have hlabels : label = otherLabel := String.toList_inj.mp hparts.1
  rw [hgrammar.label_eq_ok_iff] at hlabel hother
  rw [hlabels] at hlabel
  exact ⟨Option.some.inj (hlabel.symm.trans hother), hparts.2⟩

mutual

theorem alike_of_text (hgrammar : grammar.Indexes (headLabels rules) rules)
    (hplain : grammar.PlainLabels) :
    (tree other : Tree) → {written otherWritten : String} → {rest otherRest : List Char} →
      tree.text grammar = .ok written → other.text grammar = .ok otherWritten →
      Ends rest → Ends otherRest → written.toList ++ rest = otherWritten.toList ++ otherRest →
      Alike tree other ∧ rest = otherRest
  | ⟨symbol, span, []⟩, ⟨other, otherSpan, []⟩, written, otherWritten, rest, otherRest,
      htree, hother, hrest, hotherRest, h => by
      rw [text] at htree hother
      rcases symbol_eq_of_labels hgrammar hplain htree hother hrest hotherRest h with
        ⟨rfl, hrests⟩
      exact ⟨.node .nil, hrests⟩
  | ⟨symbol, span, []⟩, ⟨other, otherSpan, child :: children⟩, written, otherWritten, rest,
      otherRest, htree, hother, hrest, _, h => by
      rw [text] at htree
      rcases exists_of_text_node hother with ⟨label, inner, -, -, hwritten⟩
      rw [hwritten, List.cons_append] at h
      exact absurd h (append_ne_open (hplain symbol written htree) hrest)
  | ⟨symbol, span, child :: children⟩, ⟨other, otherSpan, []⟩, written, otherWritten, rest,
      otherRest, htree, hother, _, hotherRest, h => by
      rw [text] at hother
      rcases exists_of_text_node htree with ⟨label, inner, -, -, hwritten⟩
      rw [hwritten, List.cons_append] at h
      exact absurd h.symm (append_ne_open (hplain other otherWritten hother) hotherRest)
  | ⟨symbol, span, child :: children⟩, ⟨other, otherSpan, otherChild :: otherChildren⟩, written,
      otherWritten, rest, otherRest, htree, hother, _, _, h => by
      rcases exists_of_text_node htree with ⟨label, inner, hlabel, hinner, hwritten⟩
      rcases exists_of_text_node hother with
        ⟨otherLabel, otherInner, hotherLabel, hotherInner, hotherWritten⟩
      rw [hwritten, hotherWritten] at h
      simp only [List.cons_append, List.append_assoc, List.nil_append, List.cons.injEq,
        true_and] at h
      -- The children come first in what follows the label, so the label ends before them.
      rcases symbol_eq_of_labels hgrammar hplain hlabel hotherLabel
        (ends_of_textAll hinner rest) (ends_of_textAll hotherInner otherRest) h with ⟨rfl, h⟩
      rcases alikeAll_of_textAll hgrammar hplain (child :: children)
        (otherChild :: otherChildren) hinner hotherInner h with ⟨hchildren, hrests⟩
      exact ⟨.node hchildren, hrests⟩

theorem alikeAll_of_textAll (hgrammar : grammar.Indexes (headLabels rules) rules)
    (hplain : grammar.PlainLabels) :
    (trees others : List Tree) → {written otherWritten : String} → {rest otherRest : List Char} →
      textAll grammar trees = .ok written → textAll grammar others = .ok otherWritten →
      written.toList ++ ')' :: rest = otherWritten.toList ++ ')' :: otherRest →
      List.Forall₂ Alike trees others ∧ rest = otherRest
  | [], [], written, otherWritten, rest, otherRest, htrees, hothers, h => by
      cases htrees
      cases hothers
      exact ⟨.nil, (List.cons.inj h).2⟩
  | [], other :: others, written, otherWritten, rest, otherRest, htrees, hothers, h => by
      cases htrees
      rcases exists_of_textAll_cons hothers with ⟨first, inner, -, -, hwritten⟩
      rw [hwritten] at h
      cases h
  | tree :: trees, [], written, otherWritten, rest, otherRest, htrees, hothers, h => by
      cases hothers
      rcases exists_of_textAll_cons htrees with ⟨first, inner, -, -, hwritten⟩
      rw [hwritten] at h
      cases h
  | tree :: trees, other :: others, written, otherWritten, rest, otherRest, htrees, hothers,
      h => by
      rcases exists_of_textAll_cons htrees with ⟨first, inner, hfirst, hinner, hwritten⟩
      rcases exists_of_textAll_cons hothers with
        ⟨otherFirst, otherInner, hotherFirst, hotherInner, hotherWritten⟩
      rw [hwritten, hotherWritten] at h
      simp only [List.cons_append, List.append_assoc, List.cons.injEq, true_and] at h
      rcases alike_of_text hgrammar hplain tree other hfirst hotherFirst
        (ends_of_textAll hinner rest) (ends_of_textAll hotherInner otherRest) h with ⟨halike, h⟩
      rcases alikeAll_of_textAll hgrammar hplain trees others hinner hotherInner h with
        ⟨halikes, hrests⟩
      exact ⟨.cons halike halikes, hrests⟩

end

theorem alike_of_text_eq (hgrammar : grammar.Indexes (headLabels rules) rules)
    (hplain : grammar.PlainLabels) {tree other : Tree} {written : String}
    (htree : tree.text grammar = .ok written) (hother : other.text grammar = .ok written) :
    Alike tree other :=
  (alike_of_text hgrammar hplain tree other htree hother ends_nil ends_nil rfl).1

mutual

theorem Alike.text_eq : {tree other : Tree} → Alike tree other →
    tree.text grammar = other.text grammar
  | ⟨symbol, span, []⟩, other, h => by
      cases h with
      | node hchildren =>
          cases hchildren
          rfl
  | ⟨symbol, span, child :: children⟩, other, h => by
      cases h with
      | node hchildren =>
          have hinner := textAll_eq_of_alike hchildren
          cases hchildren with
          | cons _ _ => rw [text, text, hinner]

theorem textAll_eq_of_alike : {trees others : List Tree} → List.Forall₂ Alike trees others →
    textAll grammar trees = textAll grammar others
  | [], others, h => by
      cases h
      rfl
  | tree :: trees, others, h => by
      cases h with
      | cons hfirst hrest => rw [textAll, textAll, hfirst.text_eq, textAll_eq_of_alike hrest]

end

mutual

theorem exists_text (hgrammar : grammar.Indexes (headLabels rules) rules) :
    (tree : Tree) → (∀ node ∈ tree.nodes, node.symbol.id < grammar.numSymbols) →
      ∃ written, tree.text grammar = .ok written
  | ⟨symbol, span, []⟩, h => by
      rw [text]
      exact hgrammar.exists_label (h _ (mem_nodes_self _))
  | ⟨symbol, span, child :: children⟩, h => by
      rw [text]
      refine exists_bind (hgrammar.exists_label (h _ (mem_nodes_self _))) fun label =>
        exists_bind (exists_textAll hgrammar (child :: children) ?_) fun inner => ⟨_, rfl⟩
      intro node hnode
      exact h node (by simp [nodes, hnode])

theorem exists_textAll (hgrammar : grammar.Indexes (headLabels rules) rules) :
    (trees : List Tree) → (∀ node ∈ nodesAll trees, node.symbol.id < grammar.numSymbols) →
      ∃ written, textAll grammar trees = .ok written
  | [], _ => ⟨"", rfl⟩
  | tree :: trees, h => by
      rw [textAll]
      refine exists_bind (exists_text hgrammar tree ?_) fun first =>
        exists_bind (exists_textAll hgrammar trees ?_) fun rest => ⟨_, rfl⟩
      · intro node hnode
        exact h node (by simp [nodesAll, hnode])
      · intro node hnode
        exact h node (by simp [nodesAll, hnode])

end

end Reading

/-! ## Trees from a chart -/

theorem Alike.symbol_eq {tree other : Tree} (h : Alike tree other) :
    tree.symbol = other.symbol := by
  cases h
  rfl

theorem Alike.forall₂_children {tree other : Tree} (h : Alike tree other) :
    List.Forall₂ Alike tree.children other.children := by
  cases h with
  | node hchildren => exact hchildren

theorem Covers.span_inj {root otherRoot : Constituent} {tree : Tree} (h : Covers root tree)
    (hother : Covers otherRoot tree) : root.span = otherRoot.span :=
  h.span_eq.symm.trans hother.span_eq

theorem Covers.eq_of_alike {root otherRoot : Constituent} {tree other : Tree}
    (h : Covers root tree) (hother : Covers otherRoot other) (halike : Alike tree other)
    (hstart : root.span.start = otherRoot.span.start) : tree = other := by
  have hchildren := halike.forall₂_children
  have hsymbol := halike.symbol_eq
  induction h generalizing otherRoot other with
  | token =>
      cases hother with
      | token =>
          simp only [List.forall₂_cons, List.forall₂_nil_left_iff, and_true] at hchildren
          have hterminal := hchildren.symbol_eq
          simp only at hstart hsymbol hterminal
          rw [hstart, hsymbol, hterminal]
      | pair _ _ => simp [branch] at hchildren
  | pair hleft hright ihLeft ihRight =>
      cases hother with
      | token => simp [branch] at hchildren
      | pair hotherLeft hotherRight =>
          simp only [branch, List.forall₂_cons, List.forall₂_nil_left_iff, and_true] at hchildren
          simp only [branch] at hstart hsymbol
          have hlefts := ihLeft hotherLeft hchildren.1 hstart hchildren.1.forall₂_children
            hchildren.1.symbol_eq
          subst hlefts
          -- The trees on the left are one, so they end where both trees on the right start.
          cases hleft.span_inj hotherLeft
          have hrights := ihRight hotherRight hchildren.2 rfl hchildren.2.forall₂_children
            hchildren.2.symbol_eq
          subst hrights
          cases hright.span_inj hotherRight
          rw [branch, branch, hsymbol]

def Over (tree : Tree) (grammar : Grammar) : Prop :=
  ∀ node ∈ tree.nodes, node.symbol.id < grammar.numSymbols

end Tree

theorem Grammar.Builds.covers {grammar : Grammar} {tokens : List String} {root : Constituent}
    {tree : Tree} (h : grammar.Builds tokens root tree) : Tree.Covers root tree := by
  induction h with
  | token _ _ _ => exact .token
  | pair _ _ _ ihLeft ihRight => exact .pair ihLeft ihRight

theorem Grammar.Indexes.plainLabels {grammar : Grammar} {rules : List Production}
    (h : grammar.Indexes (headLabels rules) rules)
    (hlabels : ∀ label ∈ vocabulary (headLabels rules) rules,
      ∀ c ∈ label.toList, c ∉ Tree.marks) : grammar.PlainLabels := by
  intro symbol label hlabel
  exact hlabels label (h.symbols.exists_symbol.mp ⟨symbol, h.label_eq_ok_iff.mp hlabel⟩)

theorem Parser.texts_of_parse {σ : Type} {grammar : Grammar} {rules : List Production}
    (hgrammar : grammar.Indexes (headLabels rules) rules) (hplain : grammar.PlainLabels)
    {start : String} {tokens : List String} {observer : Observer σ} {state : σ}
    {outcome : Outcome σ}
    (hparse : parse ⟨grammar, start, .unbounded⟩ observer state tokens = .ok outcome) :
    ∃ texts, outcome.forest.trees.mapM (Tree.text grammar) = .ok texts ∧ texts.Nodup := by
  rcases mem_trees_of_parse hgrammar hparse with ⟨hnodup, hmem⟩
  have hbuilds : ∀ tree ∈ outcome.forest.trees, ∃ symbol, grammar.symbol? start = some symbol ∧
      grammar.Builds tokens ⟨symbol, ⟨0, tokens.length⟩⟩ tree := fun tree htree =>
    Grammar.builds_of_derivationTree hgrammar ((hmem tree).mp htree)
  have htexts : ∃ texts, outcome.forest.trees.mapM (Tree.text grammar) = .ok texts := by
    apply exists_mapM
    intro tree htree
    rcases hbuilds tree htree with ⟨symbol, -, hbuild⟩
    exact hbuild.exists_text hgrammar
  rcases htexts with ⟨texts, htexts⟩
  refine ⟨texts, htexts, nodup_of_mapM htexts hnodup ?_⟩
  intro tree htree other hother written htext hotherText
  rcases hbuilds tree htree with ⟨symbol, -, hbuild⟩
  rcases hbuilds other hother with ⟨otherSymbol, -, hotherBuild⟩
  exact hbuild.covers.eq_of_alike hotherBuild.covers
    (Tree.alike_of_text_eq hgrammar hplain htext hotherText) rfl

/--
Where no label has a blank or a parenthesis in it, every tree over the grammar has a text, and two
of them have the same text if and only if they are alike.  Trees read from one chart for one
constituent are then equal, and no text occurs twice in a whole forest.
-/
theorem Tree.text_determines {rules : List Production} {compilation : Compilation}
    (hcompile : Grammar.compile rules = .ok compilation)
    (hplain : compilation.grammar.PlainLabels) :
    (∀ tree other : Tree, tree.Over compilation.grammar → other.Over compilation.grammar →
      (∃ written, tree.text compilation.grammar = .ok written) ∧
      (tree.text compilation.grammar = other.text compilation.grammar ↔ Alike tree other)) ∧
    (∀ (evidence : Evidence) (requests otherRequests : List Extractor.Request)
      (root : Constituent) (forest otherForest : Forest),
      (((Extractor.ofEvidence evidence).after requests).extract root).1 = .ok forest →
      (((Extractor.ofEvidence evidence).after otherRequests).extract root).1 = .ok otherForest →
      ∀ tree ∈ forest.trees, ∀ other ∈ otherForest.trees, ∀ written,
        tree.text compilation.grammar = .ok written →
        other.text compilation.grammar = .ok written → tree = other) ∧
    ∀ (σ : Type) (start : String) (tokens : List String) (observer : Observer σ) (state : σ)
      (outcome : Outcome σ),
      Parser.parse ⟨compilation.grammar, start, .unbounded⟩ observer state tokens =
        .ok outcome →
      ∃ texts, outcome.forest.trees.mapM (text compilation.grammar) = .ok texts ∧
        texts.Nodup := by
  have hgrammar := Grammar.indexes_of_compile hcompile
  refine ⟨?_, ?_, ?_⟩
  · intro tree other htree hother
    rcases exists_text hgrammar tree htree with ⟨written, hwritten⟩
    refine ⟨⟨written, hwritten⟩, fun h => ?_, Alike.text_eq⟩
    exact alike_of_text_eq hgrammar hplain hwritten (h.symm.trans hwritten)
  · intro evidence requests otherRequests root forest otherForest hforest hotherForest tree htree
      other hother written hwritten hotherWritten
    rw [Extractor.extract_after] at hforest hotherForest
    exact (Forest.covers_of_read hforest tree htree).eq_of_alike
      (Forest.covers_of_read hotherForest other hother)
      (alike_of_text_eq hgrammar hplain hwritten hotherWritten) rfl
  · intro σ start tokens observer state outcome hparse
    exact Parser.texts_of_parse hgrammar hplain hparse

def hollow : List Production := [⟨"S", ["S", "S"]⟩, ⟨"S", [""]⟩]

theorem Tree.hollow_text_determines :
    ∃ compilation outcome texts, Grammar.compile hollow = .ok compilation ∧
      compilation.grammar.PlainLabels ∧
      Parser.parse ⟨compilation.grammar, "S", .unbounded⟩ .silent () ["", "", ""] =
        .ok outcome ∧
      outcome.forest.trees.mapM (text compilation.grammar) = .ok texts ∧
      texts = ["(S (S ) (S (S ) (S )))", "(S (S (S ) (S )) (S ))"] ∧ texts.Nodup := by
  have hrun : (Grammar.compile hollow >>= fun compilation =>
      ((Parser.parse ⟨compilation.grammar, "S", .unbounded⟩ .silent ()
        ["", "", ""]).mapError fun _ => .outOfRange) >>= fun outcome =>
          outcome.forest.trees.mapM (text compilation.grammar)) =
      .ok ["(S (S ) (S (S ) (S )))", "(S (S (S ) (S )) (S ))"] := by
    decide +kernel
  rcases bind_eq_ok.mp hrun with ⟨compilation, hcompile, hrest⟩
  rcases bind_eq_ok.mp hrest with ⟨outcome, hmapped, htexts⟩
  have hparse := mapError_eq_ok.mp hmapped
  have hvocabulary : vocabulary (headLabels hollow) hollow = ["S", "S", ""] := by decide
  have hplain : compilation.grammar.PlainLabels := by
    apply (Grammar.indexes_of_compile hcompile).plainLabels
    simp [hvocabulary, Tree.marks]
  rcases text_determines hcompile hplain with ⟨-, -, hparses⟩
  rcases hparses _ _ _ _ _ _ hparse with ⟨texts, hall, hnodup⟩
  cases hall.symm.trans htexts
  exact ⟨compilation, outcome, _, hcompile, hplain, hparse, hall, rfl, hnodup⟩

end ChartParsing
