import ChartParsing.Proofs.Filling.Account
import ChartParsing.Proofs.Labelling
import Mathlib.Combinatorics.Enumerative.DoubleCounting
import Mathlib.Data.List.Perm.Subperm

/-!
# More rules find more

Two lists of productions have symbols, tables and an order of witnesses of their
own, so what they find in an input is compared by labels.  If one list has all
the productions of the other and the same nonterminals, a rule of the shorter
list is a rule of the longer one, and everything that is had by rules is had by
more of them.  Two lists with the same productions extend each other; neither
order nor repetition then makes a difference that labels can show.
-/

namespace ChartParsing

open Outcome

/-- The second list has every production of the first, and no nonterminals besides. -/
structure Extends (rules more : List Production) : Prop where
  mem : ∀ rule ∈ rules, rule ∈ more
  heads : ∀ label, label ∈ headLabels rules ↔ label ∈ headLabels more

section Labels

variable {rules more : List Production} {label : String} {tokens : List String} {span : Span}

theorem Extends.symm (h : Extends rules more) (hmem : ∀ rule ∈ more, rule ∈ rules) :
    Extends more rules :=
  ⟨hmem, fun label => (h.heads label).symm⟩

theorem Normal.mono (hextends : Extends rules more) {rule : Production}
    (h : Normal rules rule) : Normal more rule := by
  cases h with
  | terminal hrule htoken =>
      exact .terminal (hextends.mem _ hrule) (mt (hextends.heads _).mpr htoken)
  | pair hrule hleft hright =>
      exact .pair (hextends.mem _ hrule) ((hextends.heads _).mp hleft)
        ((hextends.heads _).mp hright)

theorem Derives.mono (hextends : Extends rules more) (h : Derives rules label tokens) :
    Derives more label tokens := by
  induction h with
  | token hrule => exact .token (hrule.mono hextends)
  | pair hrule _ _ ihLeft ihRight => exact .pair (hrule.mono hextends) ihLeft ihRight

theorem LabelledDerivation.mono (hextends : Extends rules more) {read : LabelledTree}
    (h : LabelledDerivation rules tokens label span read) :
    LabelledDerivation more tokens label span read := by
  induction h with
  | token hrule htoken => exact .token (hrule.mono hextends) htoken
  | pair hrule hstart hstop _ _ ihLeft ihRight =>
      exact .pair (hrule.mono hextends) hstart hstop ihLeft ihRight

/-! ## Sizes -/

theorem Extends.terminalLabels_subset (h : Extends rules more) :
    terminalLabels rules ⊆ terminalLabels more := by
  intro token htoken
  rcases mem_terminalLabels_iff.mp htoken with ⟨lhs, hrule⟩
  exact mem_terminalLabels_iff.mpr ⟨lhs, hrule.mono h⟩

theorem Extends.length_pairLabels_le (h : Extends rules more) :
    (pairLabels rules).length ≤ (pairLabels more).length := by
  apply (List.subperm_of_subset (FirstAppearance.nodup_eraseDups _) _).length_le
  rintro ⟨left, right⟩ hpair
  rcases mem_pairLabels_iff.mp hpair with ⟨lhs, hrule⟩
  exact mem_pairLabels_iff.mpr ⟨lhs, hrule.mono h⟩

theorem Extends.length_vocabulary_le (h : Extends rules more) :
    (vocabulary (headLabels rules) rules).eraseDups.length ≤
      (vocabulary (headLabels more) more).eraseDups.length := by
  apply (List.subperm_of_subset (FirstAppearance.nodup_eraseDups _) _).length_le
  intro label hlabel
  rw [eraseDups_vocabulary, List.mem_append, List.mem_eraseDups] at hlabel ⊢
  exact hlabel.imp (h.heads label).mp fun hterminal => h.terminalLabels_subset hterminal

end Labels

theorem length_le_of_related {α β : Type} {related : α → β → Prop}
    (hunique : Relator.LeftUnique related) {items : List α} {others : List β}
    (hnodup : items.Nodup) (h : ∀ item ∈ items, ∃ other ∈ others, related item other) :
    items.length ≤ others.length := by
  classical
  have hcard : items.toFinset.card ≤ others.toFinset.card := by
    apply Finset.card_le_card_of_forall_subsingleton related
    · simpa using h
    · intro other _ first hfirst second hsecond
      exact hunique hfirst.2 hsecond.2
  rw [List.toFinset_card_of_nodup hnodup] at hcard
  exact hcard.trans (List.toFinset_card_le others)

namespace Grammar

section Sizes

variable {rules more : List Production} {grammar larger : Grammar}

theorem numSymbols_le_of_extends (hextends : Extends rules more)
    (hgrammar : grammar.Indexes (headLabels rules) rules)
    (hlarger : larger.Indexes (headLabels more) more) :
    grammar.numSymbols ≤ larger.numSymbols := by
  rw [numSymbols, numSymbols, hgrammar.symbols.size_eq, hlarger.symbols.size_eq]
  exact hextends.length_vocabulary_le

theorem workload_le_of_extends (hextends : Extends rules more)
    (hgrammar : grammar.Indexes (headLabels rules) rules)
    (hlarger : larger.Indexes (headLabels more) more) (numTokens : Nat) :
    grammar.workload numTokens (List.range' 2 (numTokens - 1)) ≤
      larger.workload numTokens (List.range' 2 (numTokens - 1)) := by
  rw [workload_eq, workload_eq, hgrammar.forall₂_binaryGroups.length_eq,
    hlarger.forall₂_binaryGroups.length_eq]
  exact Nat.mul_le_mul_right _ hextends.length_pairLabels_le

end Sizes

/-! ## Steps -/

def SameLabel (source target : Grammar) (symbol symbol' : Symbol) : Prop :=
  ∃ label, source.symbol? label = some symbol ∧ target.symbol? label = some symbol'

/-- The witnesses tell the same of constituents with the same label, each in its grammar. -/
inductive SameRecord (source target : Grammar) :
    Constituent × Witness → Constituent × Witness → Prop
  | leaf {head head' terminal terminal' : Symbol} {span : Span}
      (hhead : source.SameLabel target head head')
      (hterminal : source.SameLabel target terminal terminal') :
      SameRecord source target (⟨head, span⟩, .leaf terminal) (⟨head', span⟩, .leaf terminal')
  | split {head head' left left' right right' : Symbol} {span : Span} {position : Nat}
      (hhead : source.SameLabel target head head') (hleft : source.SameLabel target left left')
      (hright : source.SameLabel target right right') :
      SameRecord source target (⟨head, span⟩, .split position left right)
        (⟨head', span⟩, .split position left' right')

section Steps

variable {rules more : List Production} {grammar larger : Grammar} {tokens : List String}

theorem leftUnique_sameLabel (hlarger : larger.Indexes (headLabels more) more) :
    Relator.LeftUnique (grammar.SameLabel larger) := by
  rintro first second symbol ⟨label, hfirst, hsymbol⟩ ⟨other, hsecond, hother⟩
  cases hlarger.symbols.label_inj hsymbol hother
  exact Option.some.inj (hfirst.symm.trans hsecond)

theorem leftUnique_sameRecord (hlarger : larger.Indexes (headLabels more) more) :
    Relator.LeftUnique (grammar.SameRecord larger) := by
  have hunique : Relator.LeftUnique (grammar.SameLabel larger) := leftUnique_sameLabel hlarger
  intro first second record hfirst hsecond
  cases hfirst with
  | leaf hhead hterminal =>
      cases hsecond with
      | leaf hhead' hterminal' => rw [hunique hhead hhead', hunique hterminal hterminal']
  | split hhead hleft hright =>
      cases hsecond with
      | split hhead' hleft' hright' =>
          rw [hunique hhead hhead', hunique hleft hleft', hunique hright hright']

variable (hextends : Extends rules more) (hgrammar : grammar.Indexes (headLabels rules) rules)
  (hlarger : larger.Indexes (headLabels more) more)

include hextends hgrammar hlarger

theorem Yields.mono {label : String} {symbol : Symbol} {span : Span}
    (hlabel : grammar.symbol? label = some symbol) (h : grammar.Yields tokens ⟨symbol, span⟩) :
    ∃ symbol', larger.symbol? label = some symbol' ∧ larger.Yields tokens ⟨symbol', span⟩ := by
  have hderives := (exists_yields_iff_derives hgrammar h.within label).mp ⟨symbol, hlabel, h⟩
  exact (exists_yields_iff_derives hlarger h.within label).mpr (hderives.mono hextends)

theorem Backs.mono {record : Constituent × Witness}
    (h : grammar.Backs tokens record.1 record.2) :
    ∃ record', larger.Backs tokens record'.1 record'.2 ∧
      grammar.SameRecord larger record record' := by
  rcases record with ⟨constituent, witness⟩
  cases h with
  | @leaf head terminal token position htoken hterminal hhead =>
      rcases hgrammar.mem_unaryHeads_iff.mp hhead with ⟨lhs, other, hrule, hlhs, hother⟩
      cases hgrammar.symbols.label_inj hother hterminal
      have hmore := hrule.mono hextends
      rcases hlarger.exists_symbol hmore.lhs_mem with ⟨head', hlhs'⟩
      rcases hlarger.exists_terminal hmore with ⟨terminal', hterminal'⟩
      have hhead' := hlarger.mem_unaryHeads_iff.mpr ⟨lhs, token, hmore, hlhs', hterminal'⟩
      exact ⟨(_, _), .leaf htoken hterminal' hhead',
        .leaf ⟨lhs, hlhs, hlhs'⟩ ⟨token, hterminal, hterminal'⟩⟩
  | split hhead hleft hright =>
      rcases hgrammar.expands_iff.mp hhead with
        ⟨lhs, first, second, hrule, hlhs, hfirst, hsecond⟩
      have hmore := hrule.mono hextends
      rcases hlarger.exists_symbol hmore.lhs_mem with ⟨head', hlhs'⟩
      rcases hleft.mono hextends hgrammar hlarger hfirst with ⟨left', hfirst', hleft'⟩
      rcases hright.mono hextends hgrammar hlarger hsecond with ⟨right', hsecond', hright'⟩
      have hhead' := hlarger.expands_iff.mpr
        ⟨lhs, first, second, hmore, hlhs', hfirst', hsecond'⟩
      exact ⟨(_, _), .split hhead' hleft' hright',
        .split ⟨lhs, hlhs, hlhs'⟩ ⟨first, hfirst, hfirst'⟩ ⟨second, hsecond, hsecond'⟩⟩

variable {known known' : Constituent → Bool}
  (hknown : ∀ constituent, known constituent = true ↔ grammar.Yields tokens constituent)
  (hknown' : ∀ constituent, known' constituent = true ↔ larger.Yields tokens constituent)

include hknown hknown'

theorem length_fullLog_le_of_extends :
    (grammar.log known tokens (List.range' 2 (tokens.length - 1))).length ≤
      (larger.log known' tokens (List.range' 2 (tokens.length - 1))).length := by
  apply length_le_of_related (leftUnique_sameRecord hlarger) (nodup_fullLog hgrammar hknown)
  intro record hrecord
  have hbacks := (mem_fullLog_iff hgrammar hknown).mp hrecord
  rcases hbacks.mono hextends hgrammar hlarger with ⟨record', hbacks', hsame⟩
  exact ⟨record', (mem_fullLog_iff hlarger hknown').mpr hbacks', hsame⟩

theorem FitsRun.of_extends (h : larger.FitsRun known' tokens) : grammar.FitsRun known tokens := by
  have hsymbols := numSymbols_le_of_extends hextends hgrammar hlarger
  refine ⟨h.rows_lt, Nat.lt_of_le_of_lt ?_ h.flags_lt, Nat.lt_of_le_of_lt ?_ h.steps_lt,
    Nat.lt_of_le_of_lt ?_ h.combinations_lt⟩
  · gcongr
  · exact length_fullLog_le_of_extends hextends hgrammar hlarger hknown hknown'
  · exact workload_le_of_extends hextends hgrammar hlarger tokens.length

end Steps

end Grammar

/-! ## Fillings -/

def Filling.HasLabel (filling : Filling) (grammar : Grammar) (label : String) (span : Span) :
    Prop :=
  ∃ symbol, grammar.symbol? label = some symbol ∧
    filling.chart.contains ⟨symbol, span⟩ = .ok true

/-- By labels, the second filling has at least what the first has, from no less work. -/
structure Filling.AtMost (source target : Grammar) (tokens : List String)
    (filling filling' : Filling) : Prop where
  hasLabel : ∀ label start stop, start < stop → stop ≤ tokens.length →
    filling.HasLabel source label ⟨start, stop⟩ → filling'.HasLabel target label ⟨start, stop⟩
  steps_le : filling.stats.steps ≤ filling'.stats.steps
  combinations_le : filling.stats.combinations ≤ filling'.stats.combinations
  unknown : ∀ position token, .unknownToken position token ∈ filling'.diagnostics →
    .unknownToken position token ∈ filling.diagnostics

/-- By labels, the fillings cannot be told apart. -/
structure Filling.Alike (source target : Grammar) (tokens : List String)
    (filling filling' : Filling) : Prop where
  hasLabel_iff : ∀ label start stop, start < stop → stop ≤ tokens.length →
    (filling.HasLabel source label ⟨start, stop⟩ ↔ filling'.HasLabel target label ⟨start, stop⟩)
  stats_eq : filling.stats = filling'.stats
  diagnostics_eq : filling.diagnostics = filling'.diagnostics

section Fillings

variable {σ τ : Type} {rules more : List Production} {grammar larger : Grammar}
  {tokens : List String} {observer : Observer σ} {observer' : Observer τ} {state : σ} {state' : τ}
  {progress : Progress σ} {progress' : Progress τ}

theorem Grammar.hasLabel_iff_derives (hgrammar : grammar.Indexes (headLabels rules) rules)
    (hfill : grammar.fill observer state tokens = .ok progress) (label : String) {span : Span}
    (hspan : span.Within tokens.length) :
    progress.filling.HasLabel grammar label span ↔
      Derives rules label (tokens.extract span.start span.stop) := by
  rw [← exists_yields_iff_derives hgrammar hspan label]
  exact exists_congr fun symbol => and_congr_right fun _ =>
    contains_iff_yields hgrammar hfill hspan

theorem Grammar.exists_fill_of_extends (hextends : Extends rules more)
    (hgrammar : grammar.Indexes (headLabels rules) rules)
    (hlarger : larger.Indexes (headLabels more) more)
    (hfill' : larger.fill observer' state' tokens = .ok progress') (state : σ) :
    ∃ progress, grammar.fill .silent state tokens = .ok progress := by
  rcases grammar.exists_known tokens with ⟨known, hknown⟩
  rcases larger.exists_known tokens with ⟨known', hknown'⟩
  have hfits := fitsRun_of_fill hlarger hfill' hknown'
  exact fill_silent_of_fitsRun hgrammar hknown
    (hfits.of_extends hextends hgrammar hlarger hknown hknown') state

variable (hextends : Extends rules more) (hgrammar : grammar.Indexes (headLabels rules) rules)
  (hlarger : larger.Indexes (headLabels more) more)
  (hfill : grammar.fill observer state tokens = .ok progress)
  (hfill' : larger.fill observer' state' tokens = .ok progress')

include hextends hgrammar hlarger hfill hfill'

theorem Filling.atMost_of_extends :
    progress.filling.AtMost grammar larger tokens progress'.filling where
  hasLabel label start stop hstart hstop := by
    rw [grammar.hasLabel_iff_derives hgrammar hfill label ⟨hstart, hstop⟩,
      larger.hasLabel_iff_derives hlarger hfill' label ⟨hstart, hstop⟩]
    exact fun hderives => hderives.mono hextends
  steps_le := by
    rcases grammar.exists_known tokens with ⟨known, hknown⟩
    rcases larger.exists_known tokens with ⟨known', hknown'⟩
    rw [(grammar.shows_of_fill hgrammar hknown hfill).steps_eq,
      (larger.shows_of_fill hlarger hknown' hfill').steps_eq]
    exact Grammar.length_fullLog_le_of_extends hextends hgrammar hlarger hknown hknown'
  combinations_le := by
    rcases grammar.exists_known tokens with ⟨known, hknown⟩
    rcases larger.exists_known tokens with ⟨known', hknown'⟩
    rw [(grammar.shows_of_fill hgrammar hknown hfill).combinations_eq,
      (larger.shows_of_fill hlarger hknown' hfill').combinations_eq]
    exact Grammar.workload_le_of_extends hextends hgrammar hlarger tokens.length
  unknown position token := by
    rw [(grammar.account_of_fill hgrammar hfill).2, (larger.account_of_fill hlarger hfill').2,
      mem_unknownTokens_iff, mem_unknownTokens_iff]
    exact fun h => ⟨h.1, fun hterminal => h.2 (hextends.terminalLabels_subset hterminal)⟩

theorem Filling.alike_of_extends (hback : Extends more rules) :
    progress.filling.Alike grammar larger tokens progress'.filling := by
  have hforth := atMost_of_extends hextends hgrammar hlarger hfill hfill'
  have hback' := atMost_of_extends hback hlarger hgrammar hfill' hfill
  refine ⟨?_, ?_, ?_⟩
  · intro label start stop hstart hstop
    exact ⟨hforth.hasLabel label start stop hstart hstop,
      hback'.hasLabel label start stop hstart hstop⟩
  · exact congrArg₂ Stats.mk (Nat.le_antisymm hforth.steps_le hback'.steps_le)
      (Nat.le_antisymm hforth.combinations_le hback'.combinations_le)
  · have hterminal : ∀ token, token ∈ terminalLabels rules ↔ token ∈ terminalLabels more :=
      fun token => ⟨fun h => hextends.terminalLabels_subset h,
        fun h => hback.terminalLabels_subset h⟩
    rw [(grammar.account_of_fill hgrammar hfill).2, (larger.account_of_fill hlarger hfill').2]
    simp only [unknownTokens, hterminal]

end Fillings

/-! ## Outcomes -/

structure Outcome.AtMost {σ τ : Type} (source target : Grammar) (outcome : Outcome σ)
    (outcome' : Outcome τ) : Prop where
  accepted : outcome.verdict.accepted = true → outcome'.verdict.accepted = true
  trees_subset : ∃ reads reads', Tree.labelledAll source outcome.forest.trees = .ok reads ∧
    Tree.labelledAll target outcome'.forest.trees = .ok reads' ∧ reads ⊆ reads'

structure Outcome.Alike {σ τ : Type} (source target : Grammar) (outcome : Outcome σ)
    (outcome' : Outcome τ) : Prop where
  recognition_eq : outcome.verdict.recognition = outcome'.verdict.recognition
  numTrees_eq : outcome.forest.trees.length = outcome'.forest.trees.length
  trees_perm : ∃ reads reads', Tree.labelledAll source outcome.forest.trees = .ok reads ∧
    Tree.labelledAll target outcome'.forest.trees = .ok reads' ∧ reads.Perm reads'

section Outcomes

variable {σ τ : Type} {rules more : List Production} {grammar larger : Grammar}
  {tokens : List String} {observer : Observer σ} {observer' : Observer τ} {state : σ} {state' : τ}
  {start : String} {outcome : Outcome σ} {outcome' : Outcome τ}
  (hextends : Extends rules more) (hgrammar : grammar.Indexes (headLabels rules) rules)
  (hlarger : larger.Indexes (headLabels more) more)
  (hparse : Parser.parse ⟨grammar, start, .unbounded⟩ observer state tokens = .ok outcome)
  (hparse' : Parser.parse ⟨larger, start, .unbounded⟩ observer' state' tokens = .ok outcome')

include hextends hgrammar hlarger hparse hparse'

theorem Outcome.atMost_of_extends : outcome.AtMost grammar larger outcome' where
  accepted := by
    rw [Parser.accepted_iff_of_judge hgrammar (Parser.judge_of_parse hparse).1,
      Parser.accepted_iff_of_judge hlarger (Parser.judge_of_parse hparse').1,
      Parser.start_yields_iff_derives hgrammar, Parser.start_yields_iff_derives hlarger]
    exact fun h => ⟨h.1, h.2.mono hextends⟩
  trees_subset := by
    rcases Parser.labelled_of_parse hgrammar hparse with ⟨reads, hreads, -, hmem⟩
    rcases Parser.labelled_of_parse hlarger hparse' with ⟨reads', hreads', -, hmem'⟩
    refine ⟨reads, reads', hreads, hreads', fun read hread => ?_⟩
    exact (hmem' read).mpr (((hmem read).mp hread).mono hextends)

theorem Outcome.alike_of_extends (hback : Extends more rules) :
    outcome.Alike grammar larger outcome' := by
  rcases Parser.recognition_of_judge (Parser.judge_of_parse hparse).1 with
    ⟨progress, hfill, hrecognition⟩
  rcases Parser.recognition_of_judge (Parser.judge_of_parse hparse').1 with
    ⟨progress', hfill', hrecognition'⟩
  have hforth := atMost_of_extends hextends hgrammar hlarger hparse hparse'
  have hback' := atMost_of_extends hback hlarger hgrammar hparse' hparse
  have hfillings := Filling.alike_of_extends hextends hgrammar hlarger hfill hfill' hback
  have haccepted : outcome.verdict.accepted = outcome'.verdict.accepted :=
    Bool.eq_iff_iff.mpr ⟨hforth.accepted, hback'.accepted⟩
  rcases Parser.labelled_of_parse hgrammar hparse with ⟨reads, hreads, hnodup, hmem⟩
  rcases Parser.labelled_of_parse hlarger hparse' with ⟨reads', hreads', hnodup', hmem'⟩
  have hperm : reads.Perm reads' := by
    rw [List.perm_ext_iff_of_nodup hnodup hnodup']
    intro read
    rw [hmem, hmem']
    exact ⟨fun h => h.mono hextends, fun h => h.mono hback⟩
  refine ⟨?_, ?_, reads, reads', hreads, hreads', hperm⟩
  · rw [hrecognition, hrecognition', haccepted, hfillings.stats_eq, hfillings.diagnostics_eq,
      Parser.startDiagnostics_eq hgrammar, Parser.startDiagnostics_eq hlarger]
    simp only [hextends.heads]
  · rw [(Tree.labelledAll_eq_ok_iff.mp hreads).length_eq, hperm.length_eq,
      (Tree.labelledAll_eq_ok_iff.mp hreads').length_eq]

end Outcomes

/--
If there are symbols for the labels of the larger list, both lists compile, each of a length that is
a machine word.  Where the run with more
productions succeeds, so does the one with fewer; and by labels, more productions give every cell
and every tree that fewer give, from no less work, and leave no further token unknown.  If the lists
differ in order and repetition alone, only the order of trees can differ.
-/
theorem Grammar.extension_only_adds {rules more : List Production}
    (hmem : ∀ rule ∈ rules, rule ∈ more)
    (hheads : ∀ label, label ∈ headLabels rules ↔ label ∈ headLabels more)
    (hrules : rules.length < Word.limit) (hmore : more.length < Word.limit)
    (hlabels : (vocabulary (headLabels more) more).eraseDups.length < Symbol.limit) :
    ∃ compilation larger, compile rules = .ok compilation ∧ compile more = .ok larger ∧
      ∀ tokens : List String,
        (larger.grammar.Admits tokens.length →
          ∃ progress', larger.grammar.fill .silent () tokens = .ok progress') ∧
        (∀ progress', larger.grammar.fill .silent () tokens = .ok progress' →
          (∃ progress, compilation.grammar.fill .silent () tokens = .ok progress) ∧
          ∀ start, ∃ outcome outcome',
            Parser.parse ⟨compilation.grammar, start, .unbounded⟩ .silent () tokens =
              .ok outcome ∧
            Parser.parse ⟨larger.grammar, start, .unbounded⟩ .silent () tokens =
              .ok outcome') ∧
        ∀ (σ τ : Type) (observer : Observer σ) (observer' : Observer τ) (state : σ) (state' : τ),
          (∀ progress progress',
            compilation.grammar.fill observer state tokens = .ok progress →
            larger.grammar.fill observer' state' tokens = .ok progress' →
            progress.filling.AtMost compilation.grammar larger.grammar tokens
                progress'.filling ∧
              ((∀ rule ∈ more, rule ∈ rules) →
                progress.filling.Alike compilation.grammar larger.grammar tokens
                  progress'.filling)) ∧
          ∀ start outcome outcome',
            Parser.parse ⟨compilation.grammar, start, .unbounded⟩ observer state tokens =
              .ok outcome →
            Parser.parse ⟨larger.grammar, start, .unbounded⟩ observer' state' tokens =
              .ok outcome' →
            outcome.AtMost compilation.grammar larger.grammar outcome' ∧
              ((∀ rule ∈ more, rule ∈ rules) →
                outcome.Alike compilation.grammar larger.grammar outcome') := by
  have hextends : Extends rules more := ⟨hmem, hheads⟩
  rcases exists_compile hlabels hmore with ⟨larger, hcompile'⟩
  rcases exists_compile (Nat.lt_of_le_of_lt hextends.length_vocabulary_le hlabels) hrules with
    ⟨compilation, hcompile⟩
  have hgrammar := indexes_of_compile hcompile
  have hlarger := indexes_of_compile hcompile'
  refine ⟨compilation, larger, hcompile, hcompile', fun tokens => ⟨?_, ?_, ?_⟩⟩
  · intro hadmits
    exact exists_fill_silent hlarger hadmits ()
  · intro progress' hfill'
    rcases exists_fill_of_extends hextends hgrammar hlarger hfill' () with ⟨progress, hfill⟩
    refine ⟨⟨progress, hfill⟩, fun start => ?_⟩
    rcases Parser.parse_of_fill ⟨compilation.grammar, start, .unbounded⟩ hgrammar hfill with
      ⟨outcome, hparse, -⟩
    rcases Parser.parse_of_fill ⟨larger.grammar, start, .unbounded⟩ hlarger hfill' with
      ⟨outcome', hparse', -⟩
    exact ⟨outcome, outcome', hparse, hparse'⟩
  · intro σ τ observer observer' state state'
    constructor
    · intro progress progress' hfill hfill'
      exact ⟨Filling.atMost_of_extends hextends hgrammar hlarger hfill hfill', fun hback =>
        Filling.alike_of_extends hextends hgrammar hlarger hfill hfill' (hextends.symm hback)⟩
    · intro start outcome outcome' hparse hparse'
      exact ⟨Outcome.atMost_of_extends hextends hgrammar hlarger hparse hparse', fun hback =>
        Outcome.alike_of_extends hextends hgrammar hlarger hparse hparse' (hextends.symm hback)⟩

theorem Grammar.extension_only_adds_doubling :
    (∃ compilation larger outcome outcome', compile doubling = .ok compilation ∧
      compile (⟨"S", ["b"]⟩ :: doubling) = .ok larger ∧
      Parser.parse ⟨compilation.grammar, "S", .unbounded⟩ .silent () ["a", "a", "a"] =
        .ok outcome ∧
      Parser.parse ⟨larger.grammar, "S", .unbounded⟩ .silent () ["a", "a", "a"] =
        .ok outcome' ∧
      outcome.AtMost compilation.grammar larger.grammar outcome') ∧
    ∃ compilation larger outcome outcome', compile doubling = .ok compilation ∧
      compile (doubling.reverse ++ doubling) = .ok larger ∧
      Parser.parse ⟨compilation.grammar, "S", .unbounded⟩ .silent () ["a", "a", "a"] =
        .ok outcome ∧
      Parser.parse ⟨larger.grammar, "S", .unbounded⟩ .silent () ["a", "a", "a"] =
        .ok outcome' ∧
      outcome.Alike compilation.grammar larger.grammar outcome' := by
  have hboth : ∀ more, (∀ rule ∈ doubling, rule ∈ more) →
      (∀ label, label ∈ headLabels doubling ↔ label ∈ headLabels more) →
      more.length < Word.limit →
      (vocabulary (headLabels more) more).eraseDups.length < Symbol.limit →
      (compile more >>= fun larger =>
        larger.grammar.fill .silent () ["a", "a", "a"] >>= fun _ => .ok ()) = .ok () →
      ∃ compilation larger outcome outcome', compile doubling = .ok compilation ∧
        compile more = .ok larger ∧
        Parser.parse ⟨compilation.grammar, "S", .unbounded⟩ .silent () ["a", "a", "a"] =
          .ok outcome ∧
        Parser.parse ⟨larger.grammar, "S", .unbounded⟩ .silent () ["a", "a", "a"] =
          .ok outcome' ∧
        outcome.AtMost compilation.grammar larger.grammar outcome' ∧
        ((∀ rule ∈ more, rule ∈ doubling) →
          outcome.Alike compilation.grammar larger.grammar outcome') := by
    intro more hmem hheads hmore hlabels hrun
    rcases extension_only_adds hmem hheads (by decide) hmore hlabels with
      ⟨compilation, larger, hcompile, hcompile', hadds⟩
    rcases bind_eq_ok.mp hrun with ⟨other, hother, hrest⟩
    cases hcompile'.symm.trans hother
    rcases bind_eq_ok.mp hrest with ⟨progress', hfill', -⟩
    rcases hadds ["a", "a", "a"] with ⟨-, htotal, hcompare⟩
    rcases (htotal progress' hfill').2 "S" with ⟨outcome, outcome', hparse, hparse'⟩
    exact ⟨compilation, larger, outcome, outcome', hcompile, hcompile', hparse, hparse',
      (hcompare _ _ _ _ _ _).2 _ _ _ hparse hparse'⟩
  constructor
  · rcases hboth (⟨"S", ["b"]⟩ :: doubling) (by decide) (by simp [headLabels, doubling])
      (by decide) (by decide +kernel) (by decide +kernel) with
      ⟨compilation, larger, outcome, outcome', hcompile, hcompile', hparse, hparse', hmost, -⟩
    exact ⟨compilation, larger, outcome, outcome', hcompile, hcompile', hparse, hparse', hmost⟩
  · rcases hboth (doubling.reverse ++ doubling) (by decide) (by simp [headLabels, doubling])
      (by decide) (by decide +kernel) (by decide +kernel) with
      ⟨compilation, larger, outcome, outcome', hcompile, hcompile', hparse, hparse', -, halike⟩
    exact ⟨compilation, larger, outcome, outcome', hcompile, hcompile', hparse, hparse',
      halike (by decide)⟩

end ChartParsing
