import ChartParsing.Proofs.Filling.Witnesses
import ChartParsing.Proofs.Forest.Memo
import ChartParsing.Proofs.Forest.Reading
import Mathlib.Data.Set.Card

/-!
# Forests are exact

The trees read from the evidence of a filled chart, without limits, are the
derivations of the constituent, and each derivation is read once.  A tree shows
the witness at its root, so different witnesses give different trees; and the
witnesses are those of the tables, which have every rule once.
-/

namespace ChartParsing

open Outcome Grouping

/-- A derivation of the tokens of a span from a label, as a tree with the symbols of a grammar. -/
inductive DerivationTree (rules : List Production) (grammar : Grammar) (tokens : List String) :
    String → Span → Tree → Prop
  | token {lhs token : String} {head terminal : Symbol} {position : Nat}
      (hrule : Normal rules ⟨lhs, [token]⟩) (htoken : tokens[position]? = some token)
      (hhead : grammar.symbol? lhs = some head)
      (hterminal : grammar.symbol? token = some terminal) :
      DerivationTree rules grammar tokens lhs ⟨position, position + 1⟩
        ⟨head, ⟨position, position + 1⟩, [⟨terminal, ⟨position, position + 1⟩, []⟩]⟩
  | pair {lhs left right : String} {head : Symbol} {start split stop : Nat}
      {leftTree rightTree : Tree} (hrule : Normal rules ⟨lhs, [left, right]⟩)
      (hhead : grammar.symbol? lhs = some head) (hstart : start < split) (hstop : split < stop)
      (hleft : DerivationTree rules grammar tokens left ⟨start, split⟩ leftTree)
      (hright : DerivationTree rules grammar tokens right ⟨split, stop⟩ rightTree) :
      DerivationTree rules grammar tokens lhs ⟨start, stop⟩
        ⟨head, ⟨start, stop⟩, [leftTree, rightTree]⟩

/-- The tree is a derivation of the constituent by the tables of the grammar. -/
inductive Grammar.Builds (grammar : Grammar) (tokens : List String) : Constituent → Tree → Prop
  | token {head terminal : Symbol} {token : String} {position : Nat}
      (htoken : tokens[position]? = some token)
      (hterminal : grammar.symbol? token = some terminal)
      (hhead : head ∈ grammar.unaryHeads terminal) :
      Builds grammar tokens ⟨head, ⟨position, position + 1⟩⟩
        ⟨head, ⟨position, position + 1⟩, [⟨terminal, ⟨position, position + 1⟩, []⟩]⟩
  | pair {head left right : Symbol} {start split stop : Nat} {leftTree rightTree : Tree}
      (hhead : grammar.Expands left right head)
      (hleft : Builds grammar tokens ⟨left, ⟨start, split⟩⟩ leftTree)
      (hright : Builds grammar tokens ⟨right, ⟨split, stop⟩⟩ rightTree) :
      Builds grammar tokens ⟨head, ⟨start, stop⟩⟩
        (Tree.branch ⟨head, ⟨start, stop⟩⟩ leftTree rightTree)

namespace Grammar

section Builds

variable {grammar : Grammar} {rules : List Production} {tokens : List String}
  {constituent : Constituent} {tree : Tree}

theorem Builds.symbol_eq (h : grammar.Builds tokens constituent tree) :
    tree.symbol = constituent.symbol := by
  cases h <;> rfl

theorem Builds.span_eq (h : grammar.Builds tokens constituent tree) :
    tree.span = constituent.span := by
  cases h <;> rfl

theorem Builds.yields (h : grammar.Builds tokens constituent tree) :
    grammar.Yields tokens constituent := by
  induction h with
  | token htoken hterminal hhead => exact .token htoken hterminal hhead
  | pair hhead _ _ ihLeft ihRight => exact .pair hhead ihLeft ihRight

theorem Builds.derivationTree (hgrammar : grammar.Indexes (headLabels rules) rules)
    (h : grammar.Builds tokens constituent tree) :
    ∃ label, grammar.symbol? label = some constituent.symbol ∧
      DerivationTree rules grammar tokens label constituent.span tree := by
  induction h with
  | token htoken hterminal hhead =>
      obtain ⟨lhs, token, hrule, hlhs, htokenSymbol⟩ := hgrammar.mem_unaryHeads_iff.mp hhead
      cases hgrammar.symbols.label_inj htokenSymbol hterminal
      exact ⟨lhs, hlhs, .token hrule htoken hlhs hterminal⟩
  | pair hhead hleft hright ihLeft ihRight =>
      obtain ⟨lhs, first, second, hrule, hlhs, hfirst, hsecond⟩ :=
        hgrammar.expands_iff.mp hhead
      rcases ihLeft with ⟨leftLabel, hleftLabel, hleftTree⟩
      rcases ihRight with ⟨rightLabel, hrightLabel, hrightTree⟩
      cases hgrammar.symbols.label_inj hfirst hleftLabel
      cases hgrammar.symbols.label_inj hsecond hrightLabel
      exact ⟨lhs, hlhs, .pair hrule hlhs hleft.yields.within.start_lt
        hright.yields.within.start_lt hleftTree hrightTree⟩

theorem builds_of_derivationTree (hgrammar : grammar.Indexes (headLabels rules) rules)
    {label : String} {span : Span} (h : DerivationTree rules grammar tokens label span tree) :
    ∃ symbol, grammar.symbol? label = some symbol ∧
      grammar.Builds tokens ⟨symbol, span⟩ tree := by
  induction h with
  | @token lhs token head terminal position hrule htoken hhead hterminal =>
      exact ⟨head, hhead, .token htoken hterminal
        (hgrammar.mem_unaryHeads_iff.mpr ⟨lhs, token, hrule, hhead, hterminal⟩)⟩
  | @pair lhs left right head start split stop _ _ hrule hhead _ _ _ _ ihLeft ihRight =>
      rcases ihLeft with ⟨leftSymbol, hleft, hleftBuilds⟩
      rcases ihRight with ⟨rightSymbol, hright, hrightBuilds⟩
      exact ⟨head, hhead, .pair (hgrammar.expands_iff.mpr
        ⟨lhs, left, right, hrule, hhead, hleft, hright⟩) hleftBuilds hrightBuilds⟩

theorem builds_iff_derivationTree (hgrammar : grammar.Indexes (headLabels rules) rules)
    {label : String} {symbol : Symbol} (hsymbol : grammar.symbol? label = some symbol)
    (span : Span) :
    grammar.Builds tokens ⟨symbol, span⟩ tree ↔
      DerivationTree rules grammar tokens label span tree := by
  constructor
  · intro h
    obtain ⟨other, hother, hderivation⟩ := h.derivationTree hgrammar
    cases hgrammar.symbols.label_inj hother hsymbol
    exact hderivation
  · intro h
    obtain ⟨other, hother, hbuilds⟩ := builds_of_derivationTree hgrammar h
    cases hother.symm.trans hsymbol
    exact hbuilds

end Builds

end Grammar

/-! ## Reading without limits -/

def Evidence.trees (evidence : Evidence) (root : Constituent) : List Tree :=
  match Forest.read evidence none root with
  | .ok forest => forest.trees
  | .error _ => []

def Evidence.treesOver (evidence : Evidence) (root : Constituent) : Witness → List Tree
  | .leaf _ => []
  | .split position left right =>
      Forest.product root (evidence.trees ⟨left, ⟨root.span.start, position⟩⟩)
        (evidence.trees ⟨right, ⟨position, root.span.stop⟩⟩)

def Evidence.Readable (evidence : Evidence) (root : Constituent) : Prop :=
  Forest.read evidence none root = .ok ⟨evidence.trees root, false⟩

section Reading

variable {evidence : Evidence} {root : Constituent}

theorem Evidence.readable_of_read {found : List Tree}
    (h : Forest.read evidence none root = .ok ⟨found, false⟩) :
    evidence.Readable root ∧ evidence.trees root = found := by
  have htrees : evidence.trees root = found := by
    simp only [trees, h]
  exact ⟨by rw [Readable, htrees]; exact h, htrees⟩

theorem Forest.ofSplits_of_readable {witnesses : List Witness}
    (hparts : ∀ witness ∈ witnesses, ∃ position left right,
      witness = .split position left right ∧ root.span.start < position ∧
      position < root.span.stop ∧ evidence.Readable ⟨left, ⟨root.span.start, position⟩⟩ ∧
      evidence.Readable ⟨right, ⟨position, root.span.stop⟩⟩)
    (trees : List Tree) :
    ofSplits none root (fun part _ => read evidence none part) witnesses ⟨trees, false⟩ =
      .ok ⟨trees ++ witnesses.flatMap (evidence.treesOver root), false⟩ := by
  induction witnesses generalizing trees with
  | nil => simp [ofSplits, pure, Except.pure]
  | cons witness witnesses ih =>
      obtain ⟨position, left, right, rfl, hstart, hstop, hleft, hright⟩ :=
        hparts witness (by simp)
      rw [ofSplits_cons_of_parts (isFull_none _) (Witness.parts_split hstart hstop), hleft, hright]
      have hrest := ih (fun other hother => hparts other (by simp [hother]))
        (trees ++ evidence.treesOver root (.split position left right))
      rw [List.append_assoc] at hrest
      exact hrest

theorem Forest.nodup_product {lefts rights : List Tree} (hlefts : lefts.Nodup)
    (hrights : rights.Nodup) : (product root lefts rights).Nodup := by
  apply nodup_flatMap_of_tag some (fun tree => tree.children.head?)
  · exact hlefts.map fun _ _ => Option.some.inj
  · intro left _
    apply hrights.map
    intro first second h
    simpa [Tree.branch] using h
  · intro left _ tree htree
    obtain ⟨right, -, rfl⟩ := List.mem_map.mp htree
    rfl

def Tree.witness? : Tree → Option Witness
  | ⟨_, _, [left, right]⟩ => some (.split left.span.stop left.symbol right.symbol)
  | _ => none

end Reading

/-! ## What is read -/

section Exact

variable {grammar : Grammar} {rules : List Production} {tokens : List String}
  {evidence : Evidence} {root : Constituent}

/-- The trees of the constituent are its derivations, each of them once. -/
structure Evidence.Exact (evidence : Evidence) (grammar : Grammar) (tokens : List String)
    (root : Constituent) : Prop where
  readable : evidence.Readable root
  nodup : (evidence.trees root).Nodup
  mem_iff : ∀ tree, tree ∈ evidence.trees root ↔ grammar.Builds tokens root tree

theorem Evidence.mem_treesOver_split {position : Nat} {left right : Symbol}
    (hleft : evidence.Exact grammar tokens ⟨left, ⟨root.span.start, position⟩⟩)
    (hright : evidence.Exact grammar tokens ⟨right, ⟨position, root.span.stop⟩⟩) {tree : Tree} :
    tree ∈ evidence.treesOver root (.split position left right) ↔
      ∃ leftTree rightTree,
        grammar.Builds tokens ⟨left, ⟨root.span.start, position⟩⟩ leftTree ∧
        grammar.Builds tokens ⟨right, ⟨position, root.span.stop⟩⟩ rightTree ∧
        tree = Tree.branch root leftTree rightTree := by
  simp only [treesOver, Forest.mem_product, hleft.mem_iff, hright.mem_iff]
  constructor
  · rintro ⟨leftTree, hleftTree, rightTree, hrightTree, rfl⟩
    exact ⟨leftTree, rightTree, hleftTree, hrightTree, rfl⟩
  · rintro ⟨leftTree, rightTree, hleftTree, hrightTree, rfl⟩
    exact ⟨leftTree, hleftTree, rightTree, hrightTree, rfl⟩

theorem Evidence.witness?_of_mem_treesOver {position : Nat} {left right : Symbol}
    (hleft : evidence.Exact grammar tokens ⟨left, ⟨root.span.start, position⟩⟩)
    (hright : evidence.Exact grammar tokens ⟨right, ⟨position, root.span.stop⟩⟩) {tree : Tree}
    (h : tree ∈ evidence.treesOver root (.split position left right)) :
    tree.witness? = some (.split position left right) := by
  obtain ⟨leftTree, rightTree, hleftTree, hrightTree, rfl⟩ :=
    (mem_treesOver_split hleft hright).mp h
  simp [Tree.branch, Tree.witness?, hleftTree.span_eq, hleftTree.symbol_eq,
    hrightTree.symbol_eq]

theorem Evidence.read_of_token {head terminal : Symbol} {position : Nat}
    (hlimit : position + 1 < Word.limit)
    (hget : evidence.get? ⟨head, ⟨position, position + 1⟩⟩ = some [.leaf terminal]) :
    Forest.read evidence none ⟨head, ⟨position, position + 1⟩⟩ =
      .ok ⟨[⟨head, ⟨position, position + 1⟩, [⟨terminal, ⟨position, position + 1⟩, []⟩]⟩],
        false⟩ := by
  have hisToken : Span.isToken ⟨position, position + 1⟩ = .ok true := by
    rw [Span.isToken_eq (Nat.le_succ position)]
    simp
  rw [Forest.read, Forest.ofParts_of_token hget hisToken]
  simp [Forest.ofToken, Tree.leaf_eq terminal hlimit, pure, Except.pure]

theorem Evidence.exact_of_token (hlimit : root.span.start + 1 < Word.limit)
    {token : String} {terminal : Symbol} (htoken : tokens[root.span.start]? = some token)
    (hterminal : grammar.symbol? token = some terminal)
    (hhead : root.symbol ∈ grammar.unaryHeads terminal)
    (hstop : root.span.stop = root.span.start + 1)
    (hget : evidence.get? root = some [.leaf terminal]) :
    evidence.Exact grammar tokens root := by
  rcases root with ⟨head, ⟨position, stop⟩⟩
  simp only at htoken hlimit hhead hstop
  subst hstop
  obtain ⟨hreadable, htrees⟩ := readable_of_read (read_of_token hlimit hget)
  refine ⟨hreadable, by simp [htrees], fun tree => ?_⟩
  rw [htrees, List.mem_singleton]
  constructor
  · rintro rfl
    exact .token htoken hterminal hhead
  · intro hbuilds
    -- A token has no room for a split, and only one terminal.
    cases hbuilds with
    | token htoken' hterminal' _ =>
        cases htoken.symm.trans htoken'
        cases hterminal.symm.trans hterminal'
        rfl
    | pair _ hleft hright =>
        have hleftLt := hleft.yields.within.start_lt
        have hrightLt := hright.yields.within.start_lt
        simp only at hleftLt hrightLt
        omega

theorem Evidence.exact_parts_of_backs {witness : Witness}
    (hlong : root.span.stop ≠ root.span.start + 1)
    (hexact : ∀ part : Constituent, part.span.width < root.span.width →
      grammar.Yields tokens part → evidence.Exact grammar tokens part)
    (h : grammar.Backs tokens root witness) :
    ∃ position left right, witness = .split position left right ∧
      root.span.start < position ∧ position < root.span.stop ∧
      grammar.Expands left right root.symbol ∧
      evidence.Exact grammar tokens ⟨left, ⟨root.span.start, position⟩⟩ ∧
      evidence.Exact grammar tokens ⟨right, ⟨position, root.span.stop⟩⟩ := by
  cases witness with
  | leaf terminal => exact absurd (Grammar.stop_eq_of_backs_leaf h) hlong
  | split position left right =>
      obtain ⟨hhead, hleft, hright⟩ := Grammar.backs_split_iff.mp h
      have hleftLt : root.span.start < position := hleft.within.start_lt
      have hrightLt : position < root.span.stop := hright.within.start_lt
      refine ⟨position, left, right, rfl, hleftLt, hrightLt, hhead, hexact _ ?_ hleft,
        hexact _ ?_ hright⟩
      · simp only [Span.width]
        omega
      · simp only [Span.width]
        omega

theorem Evidence.read_of_splits {witnesses : List Witness} (hne : witnesses ≠ [])
    (hget : evidence.get? root = some witnesses) (hstart : root.span.start < root.span.stop)
    (hlong : root.span.stop ≠ root.span.start + 1)
    (hparts : ∀ witness ∈ witnesses, ∃ position left right,
      witness = .split position left right ∧ root.span.start < position ∧
      position < root.span.stop ∧ evidence.Readable ⟨left, ⟨root.span.start, position⟩⟩ ∧
      evidence.Readable ⟨right, ⟨position, root.span.stop⟩⟩) :
    Forest.read evidence none root =
      .ok ⟨witnesses.flatMap (evidence.treesOver root), false⟩ := by
  obtain ⟨first, rest, rfl⟩ := List.exists_cons_of_ne_nil hne
  have hisToken : root.span.isToken = .ok false := by
    rw [Span.isToken_eq (Nat.le_of_lt hstart), decide_eq_false hlong]
  rw [Forest.read, Forest.ofParts_of_long hget hisToken]
  exact Forest.ofSplits_of_readable hparts []

theorem Evidence.exact_of_splits {witnesses : List Witness} (hne : witnesses ≠ [])
    (hnodup : witnesses.Nodup) (hget : evidence.get? root = some witnesses)
    (hstart : root.span.start < root.span.stop)
    (hlong : root.span.stop ≠ root.span.start + 1)
    (hwitnesses : ∀ witness, witness ∈ witnesses ↔ grammar.Backs tokens root witness)
    (hexact : ∀ part : Constituent, part.span.width < root.span.width →
      grammar.Yields tokens part → evidence.Exact grammar tokens part) :
    evidence.Exact grammar tokens root := by
  have hparts := fun witness hmem =>
    exact_parts_of_backs hlong hexact ((hwitnesses witness).mp hmem)
  have hread : Forest.read evidence none root =
      .ok ⟨witnesses.flatMap (evidence.treesOver root), false⟩ := by
    apply read_of_splits hne hget hstart hlong
    intro witness hmem
    obtain ⟨position, left, right, rfl, hleftLt, hrightLt, -, hleft, hright⟩ := hparts witness hmem
    exact ⟨position, left, right, rfl, hleftLt, hrightLt, hleft.readable, hright.readable⟩
  obtain ⟨hreadable, htrees⟩ := readable_of_read hread
  refine ⟨hreadable, ?_, ?_⟩
  · rw [htrees]
    apply nodup_flatMap_of_tag some Tree.witness? (hnodup.map fun _ _ => Option.some.inj)
    · intro witness hmem
      obtain ⟨position, left, right, rfl, -, -, -, hleft, hright⟩ := hparts witness hmem
      exact Forest.nodup_product hleft.nodup hright.nodup
    · intro witness hmem tree htree
      obtain ⟨position, left, right, rfl, -, -, -, hleft, hright⟩ := hparts witness hmem
      exact witness?_of_mem_treesOver hleft hright htree
  · intro tree
    rw [htrees, List.mem_flatMap]
    constructor
    · rintro ⟨witness, hmem, htree⟩
      obtain ⟨position, left, right, rfl, -, -, hhead, hleft, hright⟩ := hparts witness hmem
      obtain ⟨leftTree, rightTree, hleftTree, hrightTree, rfl⟩ :=
        (mem_treesOver_split hleft hright).mp htree
      exact .pair hhead hleftTree hrightTree
    · intro hbuilds
      cases hbuilds with
      | token _ _ _ => exact absurd rfl hlong
      | pair hhead hleftTree hrightTree =>
          have hmem := (hwitnesses _).mpr (.split hhead hleftTree.yields hrightTree.yields)
          obtain ⟨position, left, right, heq, -, -, -, hleft, hright⟩ := hparts _ hmem
          cases heq
          exact ⟨_, hmem, (mem_treesOver_split hleft hright).mpr
            ⟨_, _, hleftTree, hrightTree, rfl⟩⟩

theorem Evidence.exact_of_yields (hgrammar : grammar.Indexes (headLabels rules) rules)
    {known : Constituent → Bool}
    (hknown : ∀ constituent, known constituent = true ↔ grammar.Yields tokens constituent)
    (hlimit : tokens.length < Word.limit)
    (hevidence : ∀ constituent, grammar.Yields tokens constituent →
      evidence.get? constituent = some (grammar.witnesses known tokens constituent))
    (h : grammar.Yields tokens root) : evidence.Exact grammar tokens root := by
  induction hwidth : root.span.width using Nat.strongRecOn generalizing root with
  | ind width ih =>
      have hget := hevidence root h
      have hwitnesses : ∀ witness, witness ∈ grammar.witnesses known tokens root ↔
          grammar.Backs tokens root witness :=
        fun _ => Grammar.mem_witnesses_iff hgrammar hknown
      have hne := (Grammar.witnesses_ne_nil_iff hgrammar hknown).mpr h
      have hwithin := h.within
      cases h with
      | @token head terminal token position htoken hterminal hhead =>
          have hlist : grammar.witnesses known tokens ⟨head, ⟨position, position + 1⟩⟩ =
              [.leaf terminal] := by
            rw [Grammar.witnesses, Grammar.splitWitnesses_of_token rfl]
            simp [Grammar.leafWitnesses, htoken, hterminal, hhead]
          rw [hlist] at hget
          have hstop := hwithin.stop_le
          exact exact_of_token (Nat.lt_of_le_of_lt hstop hlimit) htoken hterminal hhead rfl hget
      | pair hhead hleft hright =>
          have hleftLt := hleft.within.start_lt
          have hrightLt := hright.within.start_lt
          simp only at hleftLt hrightLt
          refine exact_of_splits hne ?_ hget hwithin.start_lt (by simp only; omega) hwitnesses ?_
          · rw [Grammar.witnesses, Grammar.leafWitnesses_of_long (by simp only; omega)]
            exact Grammar.nodup_splitWitnesses hgrammar known _
          · intro part hnarrow hyields
            exact ih part.span.width (hwidth ▸ hnarrow) hyields rfl

theorem Grammar.get?_of_fill (hgrammar : grammar.Indexes (headLabels rules) rules)
    {known : Constituent → Bool}
    (hknown : ∀ constituent, known constituent = true ↔ grammar.Yields tokens constituent)
    {σ : Type} {observer : Observer σ} {state : σ} {progress : Progress σ}
    (hfill : grammar.fill observer state tokens = .ok progress) {constituent : Constituent}
    (h : grammar.Yields tokens constituent) :
    progress.filling.evidence.get? constituent =
      some (grammar.witnesses known tokens constituent) := by
  rw [get?_eq_witnesses hgrammar hfill hknown,
    if_neg ((witnesses_ne_nil_iff hgrammar hknown).mpr h)]

end Exact

/-! ## From productions to forests -/

theorem Parser.trees_of_accepted {σ : Type} {parser : Parser} {verdict : Verdict σ}
    {start : Symbol} {span : Span} (haccepted : verdict.accepted = true)
    (hstart : parser.start? = some start)
    (hspan : verdict.filling.chart.fullSpan? = some span) :
    parser.trees verdict =
      Forest.read verdict.filling.evidence parser.limits.cap ⟨start, span⟩ := by
  rw [trees, haccepted, hstart, hspan]
  exact Extractor.extract_withLimits _ _ _

theorem Parser.parse_of_trees {σ : Type} {parser : Parser} {observer : Observer σ} {state : σ}
    {tokens : List String} {verdict : Verdict σ} {forest : Forest}
    (hjudge : parser.judge observer state tokens = .ok verdict)
    (htrees : parser.trees verdict = .ok forest) :
    parser.parse observer state tokens = .ok ⟨verdict, forest⟩ := by
  rw [parse, hjudge]
  simp only [Except.mapError, bind, Except.bind, htrees]
  rfl

/--
An accepted input is parsed.  Without limits its forest is whole and lists, once each, the
derivation trees from the start label, however often the productions repeat a rule.
-/
theorem Parser.parse_forest_exact {rules : List Production} {compilation : Compilation}
    (hcompile : Grammar.compile rules = .ok compilation) {start : String} {tokens : List String}
    {σ : Type} {observer : Observer σ} {state : σ} {verdict : Verdict σ}
    (hjudge : Parser.judge ⟨compilation.grammar, start, .unbounded⟩ observer state tokens =
      .ok verdict)
    (haccepted : verdict.accepted = true) :
    ∃ forest,
      Parser.parse ⟨compilation.grammar, start, .unbounded⟩ observer state tokens =
        .ok ⟨verdict, forest⟩ ∧
      forest.trees.Nodup ∧ forest.truncated = false ∧
      (∀ tree, tree ∈ forest.trees ↔
        DerivationTree rules compilation.grammar tokens start ⟨0, tokens.length⟩ tree) ∧
      forest.trees.length = Set.ncard {tree |
        DerivationTree rules compilation.grammar tokens start ⟨0, tokens.length⟩ tree} := by
  have hgrammar := Grammar.indexes_of_compile hcompile
  obtain ⟨known, hknown⟩ := compilation.grammar.exists_known tokens
  obtain ⟨progress, hfill⟩ := fill_of_judge hjudge
  obtain ⟨other, hother, hfilling, haccepts⟩ := judge_of_fill hgrammar hfill
  cases hjudge.symm.trans hother
  obtain ⟨symbol, hsymbol, hyields⟩ := haccepts.mp haccepted
  have hshows := Grammar.shows_of_fill hgrammar hknown hfill
  have hlimit : tokens.length < Word.limit := by
    rw [← hshows.numTokens_eq]
    exact Chart.numTokens_lt hshows.fits
  have hexact : verdict.filling.evidence.Exact compilation.grammar tokens
      ⟨symbol, ⟨0, tokens.length⟩⟩ := by
    rw [hfilling]
    exact Evidence.exact_of_yields hgrammar hknown hlimit
      (fun _ => Grammar.get?_of_fill hgrammar hknown hfill) hyields
  have hspan : verdict.filling.chart.fullSpan? = some ⟨0, tokens.length⟩ := by
    have hpos := hyields.within.start_lt
    rw [hfilling, Chart.fullSpan?, hshows.numTokens_eq, if_neg (Nat.ne_of_gt hpos)]
  have hlabel : compilation.grammar.symbol? start = some symbol :=
    (hgrammar.nonterminal?_eq_some_iff.mp hsymbol).1
  have hmem : ∀ tree, tree ∈ verdict.filling.evidence.trees ⟨symbol, ⟨0, tokens.length⟩⟩ ↔
      DerivationTree rules compilation.grammar tokens start ⟨0, tokens.length⟩ tree := by
    intro tree
    rw [hexact.mem_iff, Grammar.builds_iff_derivationTree hgrammar hlabel]
  refine ⟨⟨verdict.filling.evidence.trees ⟨symbol, ⟨0, tokens.length⟩⟩, false⟩, ?_,
    hexact.nodup, rfl, hmem, ?_⟩
  · apply parse_of_trees hjudge
    rw [trees_of_accepted haccepted hsymbol hspan]
    exact hexact.readable
  · have hset : {tree |
        DerivationTree rules compilation.grammar tokens start ⟨0, tokens.length⟩ tree} =
        (verdict.filling.evidence.trees ⟨symbol, ⟨0, tokens.length⟩⟩).toFinset := by
      ext tree
      simp [hmem]
    rw [hset, Set.ncard_coe_finset, List.toFinset_card_of_nodup hexact.nodup]

theorem Parser.parse_doubling_twice :
    ∃ compilation verdict forest,
      Grammar.compile (doubling ++ doubling) = .ok compilation ∧
      Parser.parse ⟨compilation.grammar, "S", .unbounded⟩ .silent () ["a", "a", "a"] =
        .ok ⟨verdict, forest⟩ ∧
      forest.trees.length = 2 ∧
      forest.trees.length = Set.ncard {tree | DerivationTree (doubling ++ doubling)
        compilation.grammar ["a", "a", "a"] "S" ⟨0, 3⟩ tree} := by
  have haccepted : ((Grammar.compile (doubling ++ doubling)).toOption.bind fun compilation =>
      (Parser.judge ⟨compilation.grammar, "S", .unbounded⟩ .silent ()
        ["a", "a", "a"]).toOption.map Verdict.accepted) = some true := by
    decide +kernel
  have hcount : ((Grammar.compile (doubling ++ doubling)).toOption.bind fun compilation =>
      (Parser.parse ⟨compilation.grammar, "S", .unbounded⟩ .silent ()
        ["a", "a", "a"]).toOption.map fun outcome => outcome.forest.trees.length) = some 2 := by
    decide +kernel
  cases hcompile : Grammar.compile (doubling ++ doubling) with
  | error fault =>
      rw [hcompile] at haccepted
      cases haccepted
  | ok compilation =>
      rw [hcompile] at haccepted hcount
      simp only [Except.toOption, Option.bind_some] at haccepted hcount
      cases hjudge : Parser.judge ⟨compilation.grammar, "S", .unbounded⟩ .silent ()
          ["a", "a", "a"] with
      | error fault =>
          rw [hjudge] at haccepted
          cases haccepted
      | ok verdict =>
          rw [hjudge] at haccepted
          obtain ⟨forest, hparse, -, -, -, hncard⟩ :=
            parse_forest_exact hcompile hjudge (Option.some.inj haccepted)
          rw [hparse] at hcount
          exact ⟨compilation, verdict, forest, rfl, hparse, Option.some.inj hcount, hncard⟩

end ChartParsing
