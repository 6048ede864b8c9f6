import ChartParsing.Proofs.Acceptance
import Mathlib.Combinatorics.Enumerative.Catalan.Basic

/-!
# Catalan numbers of trees

No input is more ambiguous than copies of a token under a nonterminal that
expands to itself twice or to the token.  Every span is then a constituent, and
every split of it is a witness, so the trees over a span are counted by the
recurrence of the Catalan numbers, and no combination is tried in vain.
-/

namespace ChartParsing

open Outcome Grouping

def doublingWith (label token : String) : List Production :=
  [⟨label, [label, label]⟩, ⟨label, [token]⟩]

namespace Grammar

/-- The tables of a nonterminal that expands to itself twice, or to the terminal of a token. -/
structure Doubles (grammar : Grammar) (token : String) (head terminal : Symbol) : Prop where
  symbol?_eq : grammar.symbol? token = some terminal
  unary_eq : grammar.unary.groups = [(terminal, [head])]
  binary_eq : grammar.binary.groups = [((head, head), [head])]
  expands : grammar.Expands head head head
  numUnaryRules_eq : grammar.numUnaryRules = 1
  numBinaryRules_eq : grammar.numBinaryRules = 1
  numSymbols_le : grammar.numSymbols ≤ 3

section Tables

variable {grammar : Grammar} {label token : String}

theorem unary_doublingWith (hne : label ≠ token) :
    (doublingWith label token).filterMap
      (Production.unary? (headLabels (doublingWith label token))) = [(token, label)] := by
  simp [doublingWith, headLabels, Production.unary?, List.filterMap_cons, hne.symm]

theorem binary_doublingWith (label token : String) :
    (doublingWith label token).filterMap
      (Production.binary? (headLabels (doublingWith label token))) =
        [((label, label), label)] := by
  simp [doublingWith, headLabels, Production.binary?, List.filterMap_cons]

theorem length_vocabulary_doublingWith (hne : label ≠ token) :
    (vocabulary (headLabels (doublingWith label token))
      (doublingWith label token)).eraseDups.length ≤ 3 := by
  rw [vocabulary, unary_doublingWith hne]
  simp [doublingWith, headLabels, List.eraseDups_cons, hne.symm]

theorem Indexes.doubles (hne : label ≠ token)
    (h : grammar.Indexes (headLabels (doublingWith label token)) (doublingWith label token)) :
    ∃ head terminal, grammar.symbol? label = some head ∧
      grammar.Doubles token head terminal := by
  have hlabel : label ∈ headLabels (doublingWith label token) := by
    simp [headLabels, doublingWith]
  have htoken : token ∉ headLabels (doublingWith label token) := by
    simp [headLabels, doublingWith, hne.symm]
  have hrule : Normal (doublingWith label token) ⟨label, [token]⟩ :=
    .terminal (by simp [doublingWith]) htoken
  rcases h.exists_symbol hlabel with ⟨head, hhead⟩
  rcases h.exists_terminal hrule with ⟨terminal, hterminal⟩
  have hunary : grammar.unary.groups = [(terminal, [head])] := by
    have hpair : grammar.symbols.pair? (token, label) = some (terminal, head) :=
      SymbolTable.pair?_eq_some_iff.mpr ⟨hterminal, hhead⟩
    have hunary := h.unary
    rw [unary_doublingWith hne, List.filterMap_cons_some hpair] at hunary
    simpa [Grouping.Lists, membersIn, List.eraseDups_cons] using hunary
  have hbinary : grammar.binary.groups = [((head, head), [head])] := by
    have htriple : grammar.symbols.triple? ((label, label), label) = some ((head, head), head) :=
      SymbolTable.triple?_eq_some_iff.mpr ⟨hhead, hhead, hhead⟩
    have hbinary := h.binary.view
    rw [binary_doublingWith, List.filterMap_cons_some htriple] at hbinary
    simpa [Grouping.Lists, membersIn, List.eraseDups_cons] using hbinary
  refine ⟨head, terminal, hhead, hterminal, hunary, hbinary, ?_, ?_, ?_, ?_⟩
  · exact h.expands_iff_mem_groups.mpr ⟨[head], by simp [hbinary], by simp⟩
  · simp [h.unary_count, size, hunary]
  · simp [h.binary_count, size, hbinary]
  · rw [numSymbols, h.symbols.size_eq]
    exact length_vocabulary_doublingWith hne

end Tables

section Doubles

variable {grammar : Grammar} {token : String} {head terminal : Symbol} {numTokens : Nat}
  {known : Constituent → Bool}

theorem Doubles.unaryHeads_eq (h : grammar.Doubles token head terminal) :
    grammar.unaryHeads terminal = [head] := by
  simp [unaryHeads, members, h.unary_eq]

theorem Doubles.head_mem_unaryHeads (h : grammar.Doubles token head terminal) :
    head ∈ grammar.unaryHeads terminal := by
  simp [h.unaryHeads_eq]

theorem Doubles.yields_token (h : grammar.Doubles token head terminal) {position : Nat}
    (hposition : position < numTokens) :
    grammar.Yields (List.replicate numTokens token) ⟨head, ⟨position, position + 1⟩⟩ :=
  .token (List.getElem?_replicate_of_lt hposition) h.symbol?_eq h.head_mem_unaryHeads

theorem Doubles.yields (h : grammar.Doubles token head terminal) {start stop : Nat}
    (hstart : start < stop) (hstop : stop ≤ numTokens) :
    grammar.Yields (List.replicate numTokens token) ⟨head, ⟨start, stop⟩⟩ := by
  -- One more token on the right at a time.
  induction stop, hstart using Nat.le_induction with
  | base => exact h.yields_token hstop
  | succ stop hle ih =>
      exact .pair h.expands (ih (Nat.le_of_succ_le hstop)) (h.yields_token hstop)

/-! ## How many witnesses there are -/

theorem Doubles.length_tokensLog (h : grammar.Doubles token head terminal) :
    (grammar.tokensLog (List.replicate numTokens token)).length = numTokens := by
  have hone : ∀ item ∈ (List.replicate numTokens token).zipIdx,
      (grammar.tokenLog item.1 item.2).length = 1 := by
    rintro ⟨item, position⟩ hitem
    have htoken : item = token :=
      List.eq_of_mem_replicate (List.fst_mem_of_mem_zipIdx hitem)
    rw [htoken, tokenLog_eq, h.symbol?_eq]
    simp [h.unaryHeads_eq]
  rw [tokensLog, length_flatMap_eq hone]
  simp

section Known

variable (h : grammar.Doubles token head terminal)
  (hknown : ∀ constituent, known constituent = true ↔
    grammar.Yields (List.replicate numTokens token) constituent)

include h hknown

theorem Doubles.joins_eq {span : Span} {split : Nat} (hstop : span.stop ≤ numTokens)
    (hsplit : split ∈ splitPositions span) : joins known span split (head, head) = true := by
  rw [mem_splitPositions] at hsplit
  rw [joins, Bool.and_eq_true, hknown, hknown]
  exact ⟨h.yields hsplit.1 (by omega), h.yields hsplit.2 hstop⟩

theorem Doubles.splitWitnesses_eq {span : Span} (hstop : span.stop ≤ numTokens) :
    grammar.splitWitnesses known ⟨head, span⟩ =
      (splitPositions span).map fun split => .split split head head := by
  rw [splitWitnesses, List.map_eq_flatMap]
  apply List.flatMap_congr
  intro split hsplit
  simp [h.binary_eq, h.joins_eq hknown hstop hsplit]

theorem Doubles.length_findings_log {start width : Nat} (hstop : start + width ≤ numTokens) :
    (grammar.findings known ⟨start, start + width⟩).log.length = width - 1 := by
  have hentries : ∀ split ∈ splitPositions ⟨start, start + width⟩,
      (grammar.splitEntries known ⟨start, start + width⟩ split).length = 1 := by
    intro split hsplit
    simp [splitEntries, pairEntries, h.binary_eq, h.joins_eq hknown hstop hsplit]
  simp only [Findings.log, findings, List.length_map, length_flatMap_eq hentries,
    length_splitPositions, Nat.mul_one]

theorem Doubles.length_layerLog (width : Nat) :
    (grammar.layerLog known numTokens width).length =
      (numTokens + 1 - width) * (width - 1) := by
  rw [layerLog, layer, List.flatMap_map, length_flatMap_eq, List.length_range]
  intro start hstart
  rw [List.mem_range] at hstart
  exact h.length_findings_log hknown (by omega)

theorem Doubles.length_log :
    (grammar.log known (List.replicate numTokens token)
      (List.range' 2 (numTokens - 1))).length = numTokens + numSplits numTokens := by
  rw [log, List.length_append, h.length_tokensLog, List.length_replicate, List.length_flatMap,
    List.map_congr_left fun width _ => h.length_layerLog hknown width, sum_splits]

end Known

/-! ## How many trees there are -/

theorem sum_catalan {start stop : Nat} (hlong : start + 1 < stop) :
    ((splitPositions ⟨start, stop⟩).map fun split =>
      catalan (split - start - 1) * catalan (stop - split - 1)).sum =
        catalan (stop - start - 1) := by
  rcases Nat.exists_eq_add_of_lt hlong with ⟨last, rfl⟩
  have hwidth : start + 1 + last + 1 - start - 1 = last + 1 := by omega
  have hsplits : start + 1 + last + 1 - (start + 1) = last + 1 := by omega
  rw [hwidth, catalan_succ', Finset.Nat.sum_antidiagonal_eq_sum_range_succ
    (fun left right => catalan left * catalan right), Nat.succ_eq_add_one,
    ← List.toFinset_range, List.sum_toFinset _ List.nodup_range, splitPositions, hsplits,
    List.range'_eq_map_range, List.map_map]
  congr 1
  apply List.map_congr_left
  intro left hleft
  rw [List.mem_range] at hleft
  have hright : start + 1 + last + 1 - (start + 1 + left) - 1 = last - left := by omega
  rw [Function.comp_apply, hright, Nat.add_assoc start, Nat.add_sub_cancel_left,
    Nat.add_sub_cancel_left]

section Trees

variable {σ : Type} {rules : List Production} {observer : Observer σ} {state : σ}
  {progress : Progress σ} (h : grammar.Doubles token head terminal)
  (hgrammar : grammar.Indexes (headLabels rules) rules)
  (hfill : grammar.fill observer state (List.replicate numTokens token) = .ok progress)

include h hgrammar hfill

theorem Doubles.exact {start stop : Nat} (hstart : start < stop) (hstop : stop ≤ numTokens) :
    progress.filling.evidence.Exact grammar (List.replicate numTokens token)
      ⟨head, ⟨start, stop⟩⟩ := by
  rcases grammar.exists_known (List.replicate numTokens token) with ⟨known, hknown⟩
  exact Evidence.exact_of_yields hgrammar hknown (length_lt_of_fill hgrammar hfill)
    (fun _ => get?_of_fill hgrammar hknown hfill) (h.yields hstart hstop)

theorem Doubles.get?_long {start stop : Nat} (hlong : start + 1 < stop)
    (hstop : stop ≤ numTokens) :
    progress.filling.evidence.get? ⟨head, ⟨start, stop⟩⟩ =
      some ((splitPositions ⟨start, stop⟩).map fun split => .split split head head) := by
  rcases grammar.exists_known (List.replicate numTokens token) with ⟨known, hknown⟩
  rw [get?_of_fill hgrammar hknown hfill (h.yields (Nat.lt_of_succ_lt hlong) hstop), witnesses,
    leafWitnesses_of_long (by simp only; omega), List.nil_append,
    h.splitWitnesses_eq hknown hstop]

theorem Doubles.length_trees_token {position : Nat} (hposition : position < numTokens) :
    (progress.filling.evidence.trees ⟨head, ⟨position, position + 1⟩⟩).length = 1 := by
  have hlimit : position + 1 < Word.limit := by
    have hlength := length_lt_of_fill hgrammar hfill
    rw [List.length_replicate] at hlength
    omega
  have hread := Evidence.read_of_token hlimit (get?_leaf hgrammar hfill
    (List.getElem?_replicate_of_lt hposition) h.symbol?_eq h.head_mem_unaryHeads)
  rw [(Evidence.readable_of_read hread).2]
  rfl

theorem Doubles.trees_long {start stop : Nat} (hlong : start + 1 < stop)
    (hstop : stop ≤ numTokens) :
    progress.filling.evidence.trees ⟨head, ⟨start, stop⟩⟩ =
      (splitPositions ⟨start, stop⟩).flatMap fun split =>
        Forest.product ⟨head, ⟨start, stop⟩⟩
          (progress.filling.evidence.trees ⟨head, ⟨start, split⟩⟩)
          (progress.filling.evidence.trees ⟨head, ⟨split, stop⟩⟩) := by
  have hne : (splitPositions ⟨start, stop⟩).map
      (fun split => Witness.split split head head) ≠ [] := by
    simp only [splitPositions, ne_eq, List.map_eq_nil_iff, List.range'_eq_nil_iff]
    omega
  have hread := Evidence.read_of_splits hne (h.get?_long hgrammar hfill hlong hstop)
    (Nat.lt_of_succ_lt hlong) (Nat.ne_of_gt hlong) ?_
  · rw [(Evidence.readable_of_read hread).2, List.flatMap_map]
    rfl
  · intro witness hwitness
    rcases List.mem_map.mp hwitness with ⟨split, hsplit, rfl⟩
    rcases mem_splitPositions.mp hsplit with ⟨hleft, hright⟩
    have hsplitStop : split ≤ numTokens := Nat.le_trans (Nat.le_of_lt hright) hstop
    exact ⟨split, head, head, rfl, hleft, hright,
      (h.exact hgrammar hfill hleft hsplitStop).readable,
      (h.exact hgrammar hfill hright hstop).readable⟩

theorem Doubles.length_trees {start stop : Nat} (hstart : start < stop)
    (hstop : stop ≤ numTokens) :
    (progress.filling.evidence.trees ⟨head, ⟨start, stop⟩⟩).length =
      catalan (stop - start - 1) := by
  induction hwidth : stop - start using Nat.strongRecOn generalizing start stop with
  | ind width ih =>
      by_cases hlong : start + 1 < stop
      · rw [h.trees_long hgrammar hfill hlong hstop, List.length_flatMap, ← hwidth,
          ← sum_catalan hlong]
        congr 1
        apply List.map_congr_left
        intro split hsplit
        rw [mem_splitPositions] at hsplit
        simp only at hsplit
        rw [Forest.length_product, ih (split - start) (by omega) (by omega) (by omega) rfl,
          ih (stop - split) (by omega) (by omega) hstop rfl]
      · have htoken : stop = start + 1 := by omega
        subst htoken
        rw [h.length_trees_token hgrammar hfill hstop, ← hwidth, Nat.add_sub_cancel_left,
          catalan_zero]

theorem Doubles.stats_eq :
    progress.filling.stats = ⟨numTokens + numSplits numTokens, numSplits numTokens⟩ := by
  rcases grammar.exists_known (List.replicate numTokens token) with ⟨known, hknown⟩
  have hshows := shows_of_fill hgrammar hknown hfill
  have hsteps := hshows.steps_eq
  have hcombinations := hshows.combinations_eq
  rw [List.length_replicate, h.length_log hknown] at hsteps
  rw [List.length_replicate, workload_eq, h.binary_eq, List.length_singleton,
    Nat.one_mul] at hcombinations
  rw [← hsteps, ← hcombinations]

end Trees

/-! ## Sizes -/

theorem mul_self_lt_of_numSplits_lt (h : numSplits numTokens < Word.limit) :
    numTokens * numTokens * 32 < Word.limit := by
  have hshort : numTokens < 2 ^ 23 := by
    by_contra hlong
    have hproduct : (2 ^ 23 - 1) * 2 ^ 23 * (2 ^ 23 + 1) ≤
        (numTokens - 1) * numTokens * (numTokens + 1) :=
      Nat.mul_le_mul (Nat.mul_le_mul (by omega) (by omega)) (by omega)
    rw [numSplits, Word.limit] at h
    omega
  calc numTokens * numTokens * 32 ≤ 2 ^ 23 * 2 ^ 23 * 32 :=
        Nat.mul_le_mul_right _ (Nat.mul_le_mul (Nat.le_of_lt hshort) (Nat.le_of_lt hshort))
    _ < Word.limit := by decide

theorem Doubles.admits (h : grammar.Doubles token head terminal)
    (hsize : numTokens + numSplits numTokens < Word.limit) : grammar.Admits numTokens := by
  have hflags : numTokens * numTokens * 32 < Word.limit :=
    mul_self_lt_of_numSplits_lt (by omega)
  have hwidth : (grammar.numSymbols + 31) / 32 * 32 ≤ 32 := by
    have hsymbols := h.numSymbols_le
    omega
  refine ⟨by omega, Nat.lt_of_le_of_lt (Nat.mul_le_mul_left _ hwidth) hflags, ?_, ?_⟩
  · rw [h.binary_eq, List.length_singleton]
    omega
  · rw [h.numUnaryRules_eq, h.numBinaryRules_eq]
    omega

end Doubles

end Grammar

/--
For a label that expands to itself twice or to a token, any number of copies of the token is
accepted.  The whole forest has as many trees as the Catalan number before that number, all of them
different, and the counts of the work are those of the splits and tokens.
-/
theorem Parser.copies_have_catalan_trees {label token : String} (hne : label ≠ token)
    {numTokens : Nat} (hpos : 0 < numTokens) :
    ∃ compilation, Grammar.compile (doublingWith label token) = .ok compilation ∧
      (numTokens + (numTokens - 1) * numTokens * (numTokens + 1) / 6 < Word.limit →
        ∀ (σ : Type) (observer : Observer σ) (state : σ),
          observer.Follows compilation.grammar →
          ∃ outcome, parse ⟨compilation.grammar, label, .unbounded⟩ observer state
            (List.replicate numTokens token) = .ok outcome) ∧
      ∀ (σ : Type) (observer : Observer σ) (state : σ) (outcome : Outcome σ),
        parse ⟨compilation.grammar, label, .unbounded⟩ observer state
          (List.replicate numTokens token) = .ok outcome →
        outcome.verdict.accepted = true ∧
        outcome.forest.trees.length = catalan (numTokens - 1) ∧
        outcome.forest.trees.Nodup ∧
        outcome.forest.truncated = false ∧
        outcome.verdict.filling.stats =
          ⟨numTokens + (numTokens - 1) * numTokens * (numTokens + 1) / 6,
            (numTokens - 1) * numTokens * (numTokens + 1) / 6⟩ := by
  have hlabels := Grammar.length_vocabulary_doublingWith hne
  rcases Grammar.exists_compile (Nat.lt_of_le_of_lt hlabels (by decide))
      (show 2 < Word.limit by decide) with
    ⟨compilation, hcompile⟩
  have hgrammar := Grammar.indexes_of_compile hcompile
  rcases hgrammar.doubles hne with ⟨head, terminal, hhead, hdoubles⟩
  refine ⟨compilation, hcompile, ?_, ?_⟩
  · intro hsize σ observer state hfollows
    have hadmits := hdoubles.admits hsize
    rw [← @List.length_replicate _ numTokens token] at hadmits
    rcases (Grammar.completes_of_follows hgrammar hadmits hfollows state).parse label
      .unbounded with ⟨outcome, hparse, -⟩
    exact ⟨outcome, hparse⟩
  · intro σ observer state outcome hparse
    rcases judge_of_parse hparse with ⟨hjudge, htrees⟩
    rcases fill_of_judge hjudge with ⟨progress, hfill⟩
    rcases judge_of_fill hgrammar hfill with ⟨verdict, hverdict, hfilling, haccepts⟩
    cases hjudge.symm.trans hverdict
    have haccepted : outcome.verdict.accepted = true := by
      refine haccepts.mpr ⟨head, hgrammar.nonterminal?_eq_some_iff.mpr ⟨hhead, ?_⟩, ?_⟩
      · simp [headLabels, doublingWith]
      · rw [List.length_replicate]
        exact hdoubles.yields hpos (Nat.le_refl _)
    rcases exact_of_judge _ hgrammar hjudge haccepted with ⟨start, hstart, hread, hexact⟩
    have hforest := htrees.symm.trans (hread.trans hexact.readable)
    have hsymbol := (hgrammar.nonterminal?_eq_some_iff.mp hstart).1
    cases hsymbol.symm.trans hhead
    rw [Except.ok.injEq] at hforest
    rw [List.length_replicate] at hforest hexact
    rw [hfilling] at hforest hexact
    refine ⟨haccepted, ?_, ?_, ?_, ?_⟩
    · rw [hforest]
      exact hdoubles.length_trees hgrammar hfill hpos (Nat.le_refl _)
    · rw [hforest]
      exact hexact.nodup
    · rw [hforest]
    · rw [hfilling]
      exact hdoubles.stats_eq hgrammar hfill

theorem Parser.four_copies_have_catalan_trees :
    ∃ compilation outcome, Grammar.compile (doublingWith "S" "") = .ok compilation ∧
      parse ⟨compilation.grammar, "S", .unbounded⟩ .recorder #[] ["", "", "", ""] =
        .ok outcome ∧
      outcome.forest.trees.length = 5 ∧ outcome.verdict.filling.stats = ⟨14, 10⟩ := by
  rcases @copies_have_catalan_trees "S" "" (by decide) 4 (by decide) with
    ⟨compilation, hcompile, hparses, htrees⟩
  rcases hparses (by decide) _ .recorder #[] Observer.recorder_follows with ⟨outcome, hparse⟩
  rcases htrees _ _ _ _ hparse with ⟨-, hlength, -, -, hstats⟩
  exact ⟨compilation, outcome, hcompile, hparse, hlength.trans catalan_three, hstats⟩

end ChartParsing
