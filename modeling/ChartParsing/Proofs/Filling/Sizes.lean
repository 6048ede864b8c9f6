import ChartParsing.Proofs.Filling.Run
import Mathlib.Algebra.BigOperators.Ring.List
import Mathlib.Algebra.Order.BigOperators.Group.List
import Mathlib.Tactic.Ring

/-!
# How much work there is

The layers visit every way to split a span of the input, and a split gives at
most one witness for each rule of two nonterminals.  So the sizes that a run
reaches are bounded by the length of the input and the numbers of rules alone.
-/

namespace ChartParsing

open Grouping

section Lists

variable {α β κ : Type}

theorem length_flatMap_le {items : List α} {f : α → List β} {bound : Nat}
    (h : ∀ item ∈ items, (f item).length ≤ bound) :
    (items.flatMap f).length ≤ items.length * bound := by
  induction items with
  | nil => simp
  | cons item items ih =>
      have hfirst := h item (by simp)
      have hrest := ih fun other hother => h other (by simp [hother])
      simp only [List.flatMap_cons, List.length_append, List.length_cons, Nat.succ_mul]
      omega

theorem length_flatMap_eq {items : List α} {f : α → List β} {count : Nat}
    (h : ∀ item ∈ items, (f item).length = count) :
    (items.flatMap f).length = items.length * count := by
  rw [List.length_flatMap, List.map_congr_left h, List.map_const', List.sum_replicate_nat]

theorem Grouping.length_le_size (grouping : Grouping κ α) {group : κ × List α}
    (hgroup : group ∈ grouping.groups) : group.2.length ≤ grouping.size := by
  rcases grouping with ⟨groups⟩
  simp only [Grouping.size] at hgroup ⊢
  induction groups with
  | nil => simp at hgroup
  | cons first groups ih =>
      rcases List.mem_cons.mp hgroup with rfl | hgroup
      · simp
      · have hrest := ih hgroup
        simp only [List.foldr_cons]
        omega

theorem Grouping.length_members_le_size [DecidableEq κ] (grouping : Grouping κ α) (key : κ) :
    (grouping.members key).length ≤ grouping.size := by
  unfold members
  cases hfind : grouping.groups.find? fun group => group.1 = key with
  | none => simp
  | some group => exact grouping.length_le_size (List.mem_of_find?_eq_some hfind)

theorem Grouping.length_flatMap_groups_le_size (grouping : Grouping κ α)
    {f : κ × List α → List β} (h : ∀ group, (f group).length ≤ group.2.length) :
    (grouping.groups.flatMap f).length ≤ grouping.size := by
  rcases grouping with ⟨groups⟩
  simp only [Grouping.size]
  induction groups with
  | nil => simp
  | cons group groups ih =>
      have hgroup := h group
      simp only [List.flatMap_cons, List.length_append, List.foldr_cons]
      omega

end Lists

def numSplits (numTokens : Nat) : Nat :=
  (numTokens - 1) * numTokens * (numTokens + 1) / 6

theorem six_mul_sum_splits (layers rest : Nat) :
    6 * ((List.range' 2 layers).map fun width =>
        (layers + 1 + rest + 1 - width) * (width - 1)).sum =
      layers * (layers + 1) * (3 * rest + layers + 2) := by
  induction layers generalizing rest with
  | zero => simp
  | succ layers ih =>
      have hbefore := ih (rest + 1)
      have hlength : layers + 1 + 1 + rest + 1 = layers + 1 + (rest + 1) + 1 := by omega
      have hstarts : layers + 1 + (rest + 1) + 1 - (2 + 1 * layers) = rest + 1 := by omega
      have hwidth : 2 + 1 * layers - 1 = layers + 1 := by omega
      rw [List.range'_concat, List.map_append, List.sum_append, Nat.mul_add, hlength, hbefore,
        List.map_singleton, List.sum_singleton, hstarts, hwidth]
      ring

theorem sum_splits (numTokens : Nat) :
    ((List.range' 2 (numTokens - 1)).map fun width =>
      (numTokens + 1 - width) * (width - 1)).sum = numSplits numTokens := by
  cases numTokens with
  | zero => rfl
  | succ layers =>
      have htotal := six_mul_sum_splits layers 0
      simp only [Nat.mul_zero, Nat.zero_add, Nat.add_zero] at htotal
      rw [numSplits, Nat.add_sub_cancel, show layers + 1 + 1 = layers + 2 from rfl, ← htotal,
        Nat.mul_div_cancel_left _ (by omega)]

namespace Grammar

theorem workload_eq (grammar : Grammar) (numTokens : Nat) :
    grammar.workload numTokens (List.range' 2 (numTokens - 1)) =
      grammar.binary.groups.length * numSplits numTokens := by
  rw [workload, ← sum_splits, ← List.sum_map_mul_left]
  congr 1
  apply List.map_congr_left
  intro width _
  ring

section Lengths

variable {grammar : Grammar} {rules : List Production}
  (hgrammar : grammar.Indexes (headLabels rules) rules)

include hgrammar

theorem Indexes.length_tokenLog_le (token : String) (position : Nat) :
    (grammar.tokenLog token position).length ≤ grammar.numUnaryRules := by
  rw [tokenLog_eq]
  cases grammar.symbol? token with
  | none => simp
  | some terminal =>
      rw [List.length_map, hgrammar.unary_count]
      exact grammar.unary.length_members_le_size terminal

theorem Indexes.length_splitEntries_le (known : Constituent → Bool) (span : Span)
    (split : Nat) :
    (grammar.splitEntries known span split).length ≤ grammar.numBinaryRules := by
  rw [hgrammar.binary_count]
  apply Grouping.length_flatMap_groups_le_size ⟨grammar.binary.groups⟩
  intro group
  unfold pairEntries
  split <;> simp

theorem Indexes.length_findings_log_le (known : Constituent → Bool) (start width : Nat) :
    (grammar.findings known ⟨start, start + width⟩).log.length ≤
      (width - 1) * grammar.numBinaryRules := by
  have hentries := length_flatMap_le
    fun split (_ : split ∈ splitPositions ⟨start, start + width⟩) =>
      hgrammar.length_splitEntries_le known ⟨start, start + width⟩ split
  rw [length_splitPositions] at hentries
  simpa [Findings.log, findings] using hentries

theorem Indexes.length_layerLog_le (known : Constituent → Bool) (numTokens width : Nat) :
    (grammar.layerLog known numTokens width).length ≤
      (numTokens + 1 - width) * (width - 1) * grammar.numBinaryRules := by
  have hcells := length_flatMap_le fun start (_ : start ∈ List.range (numTokens + 1 - width)) =>
    hgrammar.length_findings_log_le known start width
  rw [List.length_range, ← Nat.mul_assoc] at hcells
  rw [layerLog, layer, List.flatMap_map]
  exact hcells

theorem Indexes.length_log_le (known : Constituent → Bool) (tokens : List String) :
    (grammar.log known tokens (List.range' 2 (tokens.length - 1))).length ≤
      tokens.length * grammar.numUnaryRules + grammar.numBinaryRules * numSplits tokens.length := by
  have htokens : (grammar.tokensLog tokens).length ≤ tokens.length * grammar.numUnaryRules := by
    have h := length_flatMap_le fun item (_ : item ∈ tokens.zipIdx) =>
      hgrammar.length_tokenLog_le item.1 item.2
    rw [List.length_zipIdx] at h
    exact h
  have hlayers : ((List.range' 2 (tokens.length - 1)).flatMap
      (grammar.layerLog known tokens.length)).length ≤
        grammar.numBinaryRules * numSplits tokens.length := by
    rw [← sum_splits, ← List.sum_map_mul_left, List.length_flatMap]
    apply List.sum_le_sum
    intro width _
    rw [Nat.mul_comm]
    exact hgrammar.length_layerLog_le known tokens.length width
  rw [log, List.length_append]
  omega

end Lengths

/-- The sizes of an input for which no run can leave the machine word. -/
structure Admits (grammar : Grammar) (numTokens : Nat) : Prop where
  rows_lt : numTokens * numTokens < Word.limit
  flags_lt : numTokens * numTokens * ((grammar.numSymbols + 31) / 32 * 32) < Word.limit
  combinations_lt : grammar.binary.groups.length * numSplits numTokens < Word.limit
  witnesses_lt : numTokens * grammar.numUnaryRules +
    grammar.numBinaryRules * numSplits numTokens < Word.limit

theorem admits_iff {grammar : Grammar} {numTokens : Nat} :
    grammar.Admits numTokens ↔ numTokens * numTokens < Word.limit ∧
      numTokens * numTokens * ((grammar.numSymbols + 31) / 32 * 32) < Word.limit ∧
      grammar.binary.groups.length * numSplits numTokens < Word.limit ∧
      numTokens * grammar.numUnaryRules + grammar.numBinaryRules * numSplits numTokens <
        Word.limit :=
  ⟨fun h => ⟨h.rows_lt, h.flags_lt, h.combinations_lt, h.witnesses_lt⟩,
    fun ⟨hrows, hflags, hcombinations, hwitnesses⟩ =>
      ⟨hrows, hflags, hcombinations, hwitnesses⟩⟩

instance (grammar : Grammar) (numTokens : Nat) : Decidable (grammar.Admits numTokens) :=
  decidable_of_iff _ admits_iff.symm

theorem Admits.fitsRun {grammar : Grammar} {rules : List Production} {tokens : List String}
    (h : grammar.Admits tokens.length) (hgrammar : grammar.Indexes (headLabels rules) rules)
    (known : Constituent → Bool) : grammar.FitsRun known tokens where
  rows_lt := h.rows_lt
  flags_lt := h.flags_lt
  steps_lt := Nat.lt_of_le_of_lt (hgrammar.length_log_le known tokens) h.witnesses_lt
  combinations_lt := by
    rw [workload_eq]
    exact h.combinations_lt

end Grammar

end ChartParsing
