import ChartParsing.Proofs.Recognition

/-!
# The witnesses of a filled chart

Over a token a constituent has one witness or none, and over a longer span it
has the splits whose two parts are in the chart, by position and then in the
order of the grammar.  The parts are looked up while the chart is still being
filled; since their cells are final by then, the full chart says the same.
-/

namespace ChartParsing

open Outcome Grouping

namespace Grammar

section Spans

variable {grammar : Grammar} {known : Constituent → Bool} {tokens : List String}
  {record : Constituent × Witness}

theorem within_of_mem_tokensLog (h : record ∈ grammar.tokensLog tokens) :
    record.1.span.Within tokens.length := by
  simp only [tokensLog, List.mem_flatMap, Prod.exists] at h
  rcases h with ⟨token, position, hitem, h⟩
  have hposition : position < tokens.length := by
    simpa using List.snd_lt_of_mem_zipIdx hitem
  rw [span_of_mem_tokenLog h]
  exact ⟨Nat.lt_succ_self position, hposition⟩

theorem within_of_mem_layerLog {numTokens width : Nat} (hpos : 0 < width)
    (h : record ∈ grammar.layerLog known numTokens width) :
    record.1.span.Within numTokens := by
  simp only [layerLog, layer, List.mem_flatMap, List.mem_map, List.mem_range] at h
  rcases h with ⟨_, ⟨start, hstart, rfl⟩, h⟩
  rw [span_of_mem_findings h]
  simp only [findings]
  constructor <;> simp only <;> omega

theorem within_of_mem_log {layers : Nat}
    (h : record ∈ grammar.log known tokens (List.range' 2 layers)) :
    record.1.span.Within tokens.length := by
  rcases List.mem_append.mp h with h | h
  · exact within_of_mem_tokensLog h
  · simp only [List.mem_flatMap, List.mem_range'_1] at h
    rcases h with ⟨width, hwidth, h⟩
    exact within_of_mem_layerLog (by omega) h

theorem membersIn_fullLog {rules : List Production}
    (hgrammar : grammar.Indexes (headLabels rules) rules)
    (hknown : ∀ constituent, known constituent = true ↔ grammar.Yields tokens constituent)
    (constituent : Constituent) :
    membersIn (grammar.log known tokens (List.range' 2 (tokens.length - 1))) constituent =
      grammar.witnesses known tokens constituent := by
  by_cases hspan : constituent.span.Within tokens.length
  · apply membersIn_log_of_width_le hgrammar known hspan
    have hstop := hspan.stop_le
    simp only [Span.width]
    omega
  · have hnone : grammar.witnesses known tokens constituent = [] := by
      by_contra hne
      exact hspan ((witnesses_ne_nil_iff hgrammar hknown).mp hne).within
    rw [hnone]
    apply membersIn_eq_nil
    rintro record hrecord rfl
    exact hspan (within_of_mem_log hrecord)

end Spans

section Evidence

variable {σ : Type} {grammar : Grammar} {rules : List Production} {tokens : List String}
  {observer : Observer σ} {state : σ} {progress : Progress σ} {constituent : Constituent}
  (hgrammar : grammar.Indexes (headLabels rules) rules)
  (hfill : grammar.fill observer state tokens = .ok progress)

include hgrammar hfill

theorem get?_eq_witnesses {known : Constituent → Bool}
    (hknown : ∀ constituent, known constituent = true ↔ grammar.Yields tokens constituent)
    (constituent : Constituent) :
    progress.filling.evidence.get? constituent =
      if grammar.witnesses known tokens constituent = [] then none
      else some (grammar.witnesses known tokens constituent) := by
  rw [(shows_of_fill hgrammar hknown hfill).get?_eq, membersIn_fullLog hgrammar hknown]

theorem get?_of_not_yields (h : ¬ grammar.Yields tokens constituent) :
    progress.filling.evidence.get? constituent = none := by
  rcases grammar.exists_known tokens with ⟨known, hknown⟩
  rw [get?_eq_witnesses hgrammar hfill hknown, if_pos]
  by_contra hne
  exact h ((witnesses_ne_nil_iff hgrammar hknown).mp hne)

theorem contains_iff_yields (hspan : constituent.span.Within tokens.length) :
    progress.filling.chart.contains constituent = .ok true ↔
      grammar.Yields tokens constituent := by
  rcases contains_of_fill hgrammar hfill constituent hspan with ⟨answer, hcontains, hanswer⟩
  rw [hcontains, Except.ok.injEq, hanswer]

theorem cell_of_fill {known : Constituent → Bool}
    (hknown : ∀ constituent, known constituent = true ↔ grammar.Yields tokens constituent)
    {span : Span} (hspan : span.Within tokens.length) :
    progress.filling.chart.cell span =
      .ok (((List.range grammar.numSymbols).filterMap Symbol.ofNat?).filter
        fun symbol => known ⟨symbol, span⟩) := by
  have hshows := shows_of_fill hgrammar hknown hfill
  have hwithin := hspan
  rw [← hshows.numTokens_eq] at hwithin
  rw [Chart.cell_eq hshows.fits hwithin.hasRow, hshows.numSymbols_eq]
  congr 2
  funext symbol
  rw [Bool.eq_iff_iff, hknown, ← contains_iff_yields hgrammar hfill hspan,
    Chart.contains_eq hshows.fits hwithin.hasRow, Except.ok.injEq]

-- A search asks for the parts of a span only, and all of these lie within the input.
theorem splitWitnesses_congr {known : Constituent → Bool}
    (hknown : ∀ constituent, known constituent = true ↔ grammar.Yields tokens constituent)
    (hstop : constituent.span.stop ≤ tokens.length) :
    grammar.splitWitnesses known constituent =
      grammar.splitWitnesses (fun part => progress.filling.chart.contains part = .ok true)
        constituent := by
  have hpart : ∀ symbol start stop, start < stop → stop ≤ tokens.length →
      known ⟨symbol, ⟨start, stop⟩⟩ =
        decide (progress.filling.chart.contains ⟨symbol, ⟨start, stop⟩⟩ = .ok true) := by
    intro symbol start stop hlt hle
    rw [Bool.eq_iff_iff, hknown, decide_eq_true_eq,
      contains_iff_yields hgrammar hfill ⟨hlt, hle⟩]
  apply List.flatMap_congr
  intro split hsplit
  rw [mem_splitPositions] at hsplit
  apply List.flatMap_congr
  intro group _
  have hjoins : joins known constituent.span split group.1 =
      joins (fun part => progress.filling.chart.contains part = .ok true)
        constituent.span split group.1 := by
    rw [joins, joins, hpart _ _ _ (by omega) (by omega), hpart _ _ _ (by omega) (by omega)]
  rw [hjoins]

theorem get?_leaf {symbol terminal : Symbol} {token : String} {position : Nat}
    (htoken : tokens[position]? = some token)
    (hterminal : grammar.symbol? token = some terminal)
    (hhead : symbol ∈ grammar.unaryHeads terminal) :
    progress.filling.evidence.get? ⟨symbol, ⟨position, position + 1⟩⟩ =
      some [.leaf terminal] := by
  rcases grammar.exists_known tokens with ⟨known, hknown⟩
  rw [get?_eq_witnesses hgrammar hfill hknown, witnesses, splitWitnesses_of_token rfl]
  simp [leafWitnesses, htoken, hterminal, hhead]

theorem get?_of_not_unary {symbol : Symbol} {position : Nat}
    (hnone : ∀ token terminal, tokens[position]? = some token →
      grammar.symbol? token = some terminal → symbol ∉ grammar.unaryHeads terminal) :
    progress.filling.evidence.get? ⟨symbol, ⟨position, position + 1⟩⟩ = none := by
  apply get?_of_not_yields hgrammar hfill
  intro h
  rcases yields_iff_exists_backs.mp h with ⟨witness, hbacks⟩
  cases hbacks with
  | leaf htoken hterminal hhead => exact hnone _ _ htoken hterminal hhead
  | split _ hleft hright =>
      -- A token has no room for a split.
      have hleftLt := hleft.within.start_lt
      have hrightLt := hright.within.start_lt
      simp only at hleftLt hrightLt
      omega

theorem get?_long (constituent : Constituent)
    (hlong : constituent.span.start + 1 < constituent.span.stop)
    (hstop : constituent.span.stop ≤ tokens.length) :
    progress.filling.evidence.get? constituent =
      if grammar.splitWitnesses (fun part => progress.filling.chart.contains part = .ok true)
        constituent = [] then none
      else some (grammar.splitWitnesses
        (fun part => progress.filling.chart.contains part = .ok true) constituent) := by
  rcases grammar.exists_known tokens with ⟨known, hknown⟩
  rw [get?_eq_witnesses hgrammar hfill hknown, witnesses, leafWitnesses_of_long (by omega),
    List.nil_append, splitWitnesses_congr hgrammar hfill hknown hstop]

end Evidence

end Grammar

/--
What a filled chart has recorded.  A token has the leaf of its terminal for every nonterminal that
expands to it.  A longer span has, without repetition, the splits whose parts are in the full chart:
positions ascend, and at each the groups of the grammar stand in their order.  Nothing is recorded
outside of the input.
-/
theorem Grammar.evidence_exact {rules : List Production} {compilation : Compilation}
    (hcompile : compile rules = .ok compilation) (tokens : List String) :
    (compilation.grammar.Admits tokens.length →
      ∃ progress, compilation.grammar.fill .silent () tokens = .ok progress) ∧
    ∀ (σ : Type) (observer : Observer σ) (state : σ) (progress : Progress σ),
      compilation.grammar.fill observer state tokens = .ok progress →
      (∀ symbol position,
        (∀ token terminal, tokens[position]? = some token →
          compilation.grammar.symbol? token = some terminal →
          symbol ∈ compilation.grammar.unaryHeads terminal →
          progress.filling.evidence.get? ⟨symbol, ⟨position, position + 1⟩⟩ =
            some [.leaf terminal]) ∧
        ((∀ token terminal, tokens[position]? = some token →
            compilation.grammar.symbol? token = some terminal →
            symbol ∉ compilation.grammar.unaryHeads terminal) →
          progress.filling.evidence.get? ⟨symbol, ⟨position, position + 1⟩⟩ = none)) ∧
      (∀ symbol start stop, start + 1 < stop → stop ≤ tokens.length →
        ∃ splits : List Witness,
          splits = (List.range' (start + 1) (stop - (start + 1))).flatMap (fun split =>
            compilation.grammar.binary.groups.flatMap fun ((left, right), heads) =>
              if (progress.filling.chart.contains ⟨left, ⟨start, split⟩⟩ = .ok true ∧
                progress.filling.chart.contains ⟨right, ⟨split, stop⟩⟩ = .ok true) ∧
                symbol ∈ heads then [.split split left right] else []) ∧
          splits.Nodup ∧
          progress.filling.evidence.get? ⟨symbol, ⟨start, stop⟩⟩ =
            if splits = [] then none else some splits) ∧
      ∀ constituent, ¬ constituent.span.Within tokens.length →
        progress.filling.evidence.get? constituent = none := by
  have hgrammar := indexes_of_compile hcompile
  refine ⟨fun hadmits => exists_fill_silent hgrammar hadmits (), ?_⟩
  intro σ observer state progress hfill
  refine ⟨fun symbol position => ⟨?_, ?_⟩, ?_, ?_⟩
  · intro token terminal htoken hterminal hhead
    exact get?_leaf hgrammar hfill htoken hterminal hhead
  · exact get?_of_not_unary hgrammar hfill
  · intro symbol start stop hlong hstop
    refine ⟨_, ?_, nodup_splitWitnesses hgrammar _ _,
      get?_long hgrammar hfill ⟨symbol, ⟨start, stop⟩⟩ hlong hstop⟩
    simp [splitWitnesses, splitPositions, joins]
  · intro constituent hspan
    exact get?_of_not_yields hgrammar hfill fun hyields => hspan hyields.within

theorem Grammar.evidence_doubling_exact :
    ∃ compilation progress, compile doubling = .ok compilation ∧
      compilation.grammar.fill .silent () ["a", "a", "a"] = .ok progress ∧
      progress.filling.evidence.get? ⟨⟨1, by decide⟩, ⟨1, 2⟩⟩ =
        some [.leaf ⟨2, by decide⟩] ∧
      (∃ splits, splits.Nodup ∧
        progress.filling.evidence.get? ⟨⟨1, by decide⟩, ⟨0, 3⟩⟩ = some splits ∧
        splits = [.split 1 ⟨1, by decide⟩ ⟨1, by decide⟩,
          .split 2 ⟨1, by decide⟩ ⟨1, by decide⟩]) ∧
      progress.filling.evidence.get? ⟨⟨1, by decide⟩, ⟨0, 4⟩⟩ = none := by
  have hrun : (compile doubling >>= fun compilation =>
      compilation.grammar.fill .silent () ["a", "a", "a"] >>= fun progress =>
        .ok (compilation.grammar.symbol? "a", compilation.grammar.unaryHeads ⟨2, by decide⟩,
          progress.filling.evidence.get? ⟨⟨1, by decide⟩, ⟨0, 3⟩⟩)) =
      .ok (some ⟨2, by decide⟩, [⟨1, by decide⟩],
        some [.split 1 ⟨1, by decide⟩ ⟨1, by decide⟩,
          .split 2 ⟨1, by decide⟩ ⟨1, by decide⟩]) := by
    decide +kernel
  rcases bind_eq_ok.mp hrun with ⟨compilation, hcompile, hrest⟩
  rcases bind_eq_ok.mp hrest with ⟨progress, hfill, hvalues⟩
  simp only [Except.ok.injEq, Prod.mk.injEq] at hvalues
  rcases hvalues with ⟨hsymbol, hheads, hget⟩
  rcases (evidence_exact hcompile ["a", "a", "a"]).2 Unit .silent () progress hfill with
    ⟨htokens, hsplits, houtside⟩
  refine ⟨compilation, progress, hcompile, hfill, ?_, ?_, ?_⟩
  · exact (htokens _ 1).1 "a" _ rfl hsymbol (by simp [hheads])
  · rcases hsplits ⟨1, by decide⟩ 0 3 (by decide) (by decide) with ⟨splits, -, hnodup, hall⟩
    rw [hget] at hall
    split at hall
    · cases hall
    · cases hall
      exact ⟨_, hnodup, hget, rfl⟩
  · apply houtside
    rintro ⟨-, hstop⟩
    simp at hstop

end ChartParsing
