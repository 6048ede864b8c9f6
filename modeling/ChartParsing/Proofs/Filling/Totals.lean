import ChartParsing.Proofs.Filling.Actions
import ChartParsing.Proofs.Filling.Observation
import ChartParsing.Proofs.Filling.Witnesses
import ChartParsing.Proofs.Tables
import Std.Data.TreeMap.Lemmas

/-!
# What a filling adds up to

The counters of a filling are raised in different places: one with every pair
of symbols that is tried, one with every witness that is added, and the
evidence gets a key for every constituent that is new.  Here they are compared
with what can be counted in the filled chart, span by span, and with what the
length of the input and the size of the grammar allow.
-/

namespace ChartParsing

open Outcome Grouping

/-! ## One step for each witness -/

section Steps

variable {σ : Type} {observer : Observer σ} {progress next : Progress σ}

/-- The steps counted are as many as the witnesses counted, and these as many as the lists hold. -/
structure Filling.InStep (filling : Filling) : Prop where
  steps_eq : filling.stats.steps = filling.evidence.numWitnesses
  counted : filling.evidence.Counted

theorem Progress.inStep_of_perform {action : Action}
    (h : progress.perform observer action = .ok next) (hsteps : progress.filling.InStep) :
    next.filling.InStep := by
  rcases progress with ⟨filling, state⟩
  cases action with
  | tally span combinations =>
      rcases bind_eq_ok.mp h with ⟨counted, -, hnext⟩
      cases hnext
      exact ⟨hsteps.steps_eq, hsteps.counted⟩
  | add constituent witness =>
      rw [perform] at h
      rcases add_eq_ok h with ⟨absent, chart, -, -, -, -, hnext⟩
      rw [hnext]
      exact ⟨congrArg (· + 1) hsteps.steps_eq, hsteps.counted.recorded constituent witness⟩
  | report position token =>
      rcases bind_eq_ok.mp h with ⟨told, -, hnext⟩
      cases hnext
      exact ⟨hsteps.steps_eq, hsteps.counted⟩

theorem Grammar.inStep_of_fill {grammar : Grammar} {rules : List Production}
    {tokens : List String} {state : σ}
    (hgrammar : grammar.Indexes (headLabels rules) rules)
    (hfill : grammar.fill observer state tokens = .ok progress) : progress.filling.InStep := by
  rcases grammar.exists_known tokens with ⟨known, hknown⟩
  rcases recorded_of_fill hfill with ⟨events, hrecorded⟩
  rcases perform_of_fill hgrammar hknown hrecorded with ⟨blank, -, hactions⟩
  exact foldlM_keeps (fun progress => progress.filling.InStep)
    (fun _ _ _ hperform hkept => Progress.inStep_of_perform hperform hkept) hactions
    ⟨rfl, Evidence.counted_empty⟩

end Steps

/-! ## The filled chart, span by span -/

namespace Chart

variable {chart : Chart} {span : Span}

theorem mem_spans_iff : span ∈ chart.spans ↔ span.Within chart.numTokens := by
  simp only [spans, List.mem_flatMap, List.mem_map, List.mem_range'_1, List.mem_range]
  constructor
  · rintro ⟨width, hwidth, start, hstart, rfl⟩
    exact ⟨by simp only; omega, by simp only; omega⟩
  · intro hspan
    have hstart := hspan.start_lt
    have hstop := hspan.stop_le
    refine ⟨span.width, ?_, span.start, hspan.start_lt_of_width, hspan.eq_of_width⟩
    simp only [Span.width]
    omega

theorem nodup_spans (chart : Chart) : chart.spans.Nodup := by
  apply nodup_flatMap_of_tag id Span.width
  · rw [List.map_id]
    exact List.nodup_range'
  · intro width _
    apply List.nodup_range.map
    intro first second heq
    exact congrArg Span.start heq
  · intro width _ span hspan
    obtain ⟨start, -, rfl⟩ := List.mem_map.mp hspan
    simp [Span.width]

end Chart

namespace Grammar

def knownSymbols (grammar : Grammar) (known : Constituent → Bool) (span : Span) : List Symbol :=
  ((List.range grammar.numSymbols).filterMap Symbol.ofNat?).filter fun symbol =>
    known ⟨symbol, span⟩

section Cells

variable {σ : Type} {grammar : Grammar} {rules : List Production} {tokens : List String}
  {observer : Observer σ} {state : σ} {progress : Progress σ} {known : Constituent → Bool}

theorem mem_knownSymbols_iff (hgrammar : grammar.Indexes (headLabels rules) rules)
    (hknown : ∀ constituent, known constituent = true ↔ grammar.Yields tokens constituent)
    {symbol : Symbol} {span : Span} :
    symbol ∈ grammar.knownSymbols known span ↔ grammar.Yields tokens ⟨symbol, span⟩ := by
  simp only [knownSymbols, List.mem_filter, List.mem_filterMap, List.mem_range,
    Symbol.ofNat?_eq_some_iff, hknown]
  constructor
  · rintro ⟨-, hyields⟩
    exact hyields
  · intro hyields
    exact ⟨⟨symbol.id, hyields.id_lt hgrammar, rfl⟩, hyields⟩

theorem nodup_knownSymbols (grammar : Grammar) (known : Constituent → Bool) (span : Span) :
    (grammar.knownSymbols known span).Nodup := by
  apply List.Nodup.filter
  apply List.Nodup.filterMap _ List.nodup_range
  intro first second symbol hfirst hsecond
  rw [Option.mem_def, Symbol.ofNat?_eq_some_iff] at hfirst hsecond
  rw [hfirst, hsecond]

def knownConstituents (grammar : Grammar) (known : Constituent → Bool) (spans : List Span) :
    List Constituent :=
  spans.flatMap fun span => (grammar.knownSymbols known span).map fun symbol => ⟨symbol, span⟩

theorem mem_knownConstituents_iff (hgrammar : grammar.Indexes (headLabels rules) rules)
    (hknown : ∀ constituent, known constituent = true ↔ grammar.Yields tokens constituent)
    {spans : List Span} {constituent : Constituent} :
    constituent ∈ grammar.knownConstituents known spans ↔
      constituent.span ∈ spans ∧ grammar.Yields tokens constituent := by
  simp only [knownConstituents, List.mem_flatMap, List.mem_map,
    mem_knownSymbols_iff hgrammar hknown]
  constructor
  · rintro ⟨span, hspan, symbol, hyields, rfl⟩
    exact ⟨hspan, hyields⟩
  · rintro ⟨hspan, hyields⟩
    exact ⟨constituent.span, hspan, constituent.symbol, hyields, rfl⟩

theorem nodup_knownConstituents (grammar : Grammar) (known : Constituent → Bool)
    {spans : List Span} (hspans : spans.Nodup) :
    (grammar.knownConstituents known spans).Nodup := by
  apply nodup_flatMap_of_tag id Constituent.span
  · rw [List.map_id]
    exact hspans
  · intro span _
    exact (grammar.nodup_knownSymbols known span).map (over_injective span)
  · intro span _ constituent hconstituent
    obtain ⟨symbol, -, rfl⟩ := List.mem_map.mp hconstituent
    rfl

variable (hgrammar : grammar.Indexes (headLabels rules) rules)
  (hfill : grammar.fill observer state tokens = .ok progress)
  (hknown : ∀ constituent, known constituent = true ↔ grammar.Yields tokens constituent)

include hgrammar hfill hknown

theorem cell_eq_knownSymbols {span : Span} (hspan : span ∈ progress.filling.chart.spans) :
    progress.filling.chart.cell span = .ok (grammar.knownSymbols known span) := by
  rw [Chart.mem_spans_iff, (shows_of_fill hgrammar hknown hfill).numTokens_eq] at hspan
  exact cell_of_fill hgrammar hfill hknown hspan

theorem constituents_of_fill :
    progress.filling.chart.constituents =
      .ok (grammar.knownConstituents known progress.filling.chart.spans) := by
  have hcells : progress.filling.chart.spans.mapM (fun span => do
      return (← progress.filling.chart.cell span).map fun symbol => Constituent.mk symbol span) =
      .ok (progress.filling.chart.spans.map fun span =>
        (grammar.knownSymbols known span).map fun symbol => ⟨symbol, span⟩) := by
    apply mapM_eq_pure
    intro span hspan
    rw [cell_eq_knownSymbols hgrammar hfill hknown hspan]
    rfl
  rw [Chart.constituents, hcells, knownConstituents, List.flatMap_def]
  rfl

theorem cellSizes_of_fill :
    progress.filling.chart.spans.mapM progress.filling.chart.cellSize =
      .ok (progress.filling.chart.spans.map fun span =>
        (grammar.knownSymbols known span).length) := by
  apply mapM_eq_pure
  intro span hspan
  rw [Chart.cellSize, cell_eq_knownSymbols hgrammar hfill hknown hspan]
  rfl

theorem get?_ne_none_iff_yields (constituent : Constituent) :
    progress.filling.evidence.get? constituent ≠ none ↔ grammar.Yields tokens constituent := by
  rw [get?_eq_witnesses hgrammar hfill hknown, ← witnesses_ne_nil_iff hgrammar hknown]
  split <;> simp [*]

theorem keys_of_fill :
    progress.filling.evidence.Keys
      (grammar.knownConstituents known progress.filling.chart.spans) where
  nodup := grammar.nodup_knownConstituents known (Chart.nodup_spans _)
  mem_iff constituent := by
    rw [mem_knownConstituents_iff hgrammar hknown, Chart.mem_spans_iff,
      (shows_of_fill hgrammar hknown hfill).numTokens_eq,
      get?_ne_none_iff_yields hgrammar hfill hknown]
    constructor
    · rintro ⟨-, hyields⟩
      exact hyields
    · intro hyields
      exact ⟨hyields.within, hyields⟩

end Cells

theorem exists_witnesses_iff_contains {σ : Type} {grammar : Grammar} {rules : List Production}
    {tokens : List String} {observer : Observer σ} {state : σ} {progress : Progress σ}
    (hgrammar : grammar.Indexes (headLabels rules) rules)
    (hfill : grammar.fill observer state tokens = .ok progress) {constituent : Constituent}
    (hspan : constituent.span.Within tokens.length) :
    (∃ witnesses, progress.filling.evidence.get? constituent = some witnesses ∧
        witnesses ≠ []) ↔
      progress.filling.chart.contains constituent = .ok true := by
  rcases grammar.exists_known tokens with ⟨known, hknown⟩
  rw [contains_iff_yields hgrammar hfill hspan, get?_eq_witnesses hgrammar hfill hknown,
    ← witnesses_ne_nil_iff hgrammar hknown]
  split <;> simp [*]

/-! ## The work in closed form -/

theorem sum_starts_mul_splits (numTokens : Nat) :
    ((List.range' 2 (numTokens - 1)).map fun width =>
      (numTokens - width + 1) * (width - 1)).sum = numSplits numTokens := by
  rw [← sum_splits]
  congr 1
  apply List.map_congr_left
  intro width hwidth
  rw [List.mem_range'_1] at hwidth
  rw [show numTokens - width + 1 = numTokens + 1 - width by omega]

theorem six_mul_numSplits (numTokens : Nat) :
    6 * numSplits numTokens = (numTokens - 1) * numTokens * (numTokens + 1) := by
  rw [← sum_splits]
  cases numTokens with
  | zero => rfl
  | succ layers => simpa using six_mul_sum_splits layers 0

end Grammar

/--
The counters of a filling and what they count.  A combination is counted for each pair of symbols
at each split of each span, a step for each witness of the evidence, and a key for each symbol in
each cell; there are never more steps than rules at the places where these could apply.
-/
theorem Grammar.counts_agree_with_contents {rules : List Production} {compilation : Compilation}
    (hcompile : compile rules = .ok compilation) (tokens : List String) :
    (compilation.grammar.Admits tokens.length →
      ∃ progress, compilation.grammar.fill .silent () tokens = .ok progress) ∧
    compilation.grammar.binary.groups.length = (pairLabels rules).length ∧
    ∀ (σ : Type) (observer : Observer σ) (state : σ) (progress : Progress σ),
      compilation.grammar.fill observer state tokens = .ok progress →
      progress.filling.stats.combinations = compilation.grammar.binary.groups.length *
        ((List.range' 2 (tokens.length - 1)).map fun width =>
          (tokens.length - width + 1) * (width - 1)).sum ∧
      6 * progress.filling.stats.combinations = compilation.grammar.binary.groups.length *
        ((tokens.length - 1) * tokens.length * (tokens.length + 1)) ∧
      progress.filling.stats.steps = progress.filling.evidence.numWitnesses ∧
      (∃ constituents, progress.filling.chart.constituents = .ok constituents ∧
        progress.filling.evidence.Keys constituents ∧
        progress.filling.evidence.numWitnesses =
          (constituents.map progress.filling.evidence.count).sum) ∧
      (progress.filling.chart.spans.Nodup ∧
        ∀ span, span ∈ progress.filling.chart.spans ↔
          span.start < span.stop ∧ span.stop ≤ tokens.length) ∧
      (∃ sizes,
        progress.filling.chart.spans.mapM progress.filling.chart.cellSize = .ok sizes ∧
        progress.filling.evidence.numConstituents = sizes.sum) ∧
      (∀ symbol start stop, start < stop → stop ≤ tokens.length →
        ((∃ witnesses, progress.filling.evidence.get? ⟨symbol, ⟨start, stop⟩⟩ = some witnesses ∧
            witnesses ≠ []) ↔
          progress.filling.chart.contains ⟨symbol, ⟨start, stop⟩⟩ = .ok true)) ∧
      progress.filling.stats.steps ≤ tokens.length * compilation.grammar.numUnaryRules +
        compilation.grammar.numBinaryRules *
          ((tokens.length - 1) * tokens.length * (tokens.length + 1) / 6) := by
  have hgrammar := indexes_of_compile hcompile
  refine ⟨fun hadmits => exists_fill_silent hgrammar hadmits (),
    hgrammar.forall₂_binaryGroups.length_eq, ?_⟩
  intro σ observer state progress hfill
  rcases compilation.grammar.exists_known tokens with ⟨known, hknown⟩
  have hshows := shows_of_fill hgrammar hknown hfill
  have hcombinations := hshows.combinations_eq
  rw [workload_eq] at hcombinations
  have hkeys := keys_of_fill hgrammar hfill hknown
  have hinStep := inStep_of_fill hgrammar hfill
  refine ⟨?_, ?_, hinStep.steps_eq, ?_, ⟨Chart.nodup_spans _, ?_⟩, ?_, ?_, ?_⟩
  · rw [hcombinations, sum_starts_mul_splits]
  · rw [hcombinations, ← six_mul_numSplits, Nat.mul_left_comm]
  · exact ⟨_, constituents_of_fill hgrammar hfill hknown, hkeys,
      hinStep.counted.trans hkeys.total_eq⟩
  · intro span
    rw [Chart.mem_spans_iff, hshows.numTokens_eq]
    exact ⟨fun hspan => ⟨hspan.start_lt, hspan.stop_le⟩, fun ⟨hstart, hstop⟩ => ⟨hstart, hstop⟩⟩
  · refine ⟨_, cellSizes_of_fill hgrammar hfill hknown, ?_⟩
    rw [hkeys.numConstituents_eq, knownConstituents, List.length_flatMap]
    simp
  · intro symbol start stop hstart hstop
    exact exists_witnesses_iff_contains hgrammar hfill ⟨hstart, hstop⟩
  · rw [hshows.steps_eq]
    exact hgrammar.length_log_le known tokens

theorem Grammar.counts_agree_doubling :
    ∃ compilation progress, compile doubling = .ok compilation ∧
      compilation.grammar.fill .silent () ["a", "a", "a"] = .ok progress ∧
      6 * progress.filling.stats.combinations =
        compilation.grammar.binary.groups.length * ((3 - 1) * 3 * (3 + 1)) ∧
      progress.filling.stats.steps = progress.filling.evidence.numWitnesses ∧
      (progress.filling.stats, progress.filling.evidence.numConstituents) = (⟨7, 4⟩, 6) := by
  have hrun : (compile doubling >>= fun compilation =>
      compilation.grammar.fill .silent () ["a", "a", "a"] >>= fun progress =>
        .ok (progress.filling.stats, progress.filling.evidence.numConstituents)) =
      .ok (⟨7, 4⟩, 6) := by
    decide +kernel
  rcases bind_eq_ok.mp hrun with ⟨compilation, hcompile, hrest⟩
  rcases bind_eq_ok.mp hrest with ⟨progress, hfill, hvalues⟩
  have hcounts := (counts_agree_with_contents hcompile ["a", "a", "a"]).2.2 Unit .silent ()
    progress hfill
  exact ⟨compilation, progress, hcompile, hfill, hcounts.2.1, hcounts.2.2.1,
    Except.ok.inj hvalues⟩

end ChartParsing
