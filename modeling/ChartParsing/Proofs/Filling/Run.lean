import ChartParsing.Proofs.Evidence
import ChartParsing.Proofs.Filling.Log
import Mathlib.Algebra.Order.Ring.Nat

/-!
# Filling keeps to the log

A search gives what there is to find, as long as the chart agrees with what is
known about the spans narrower than the one searched.  Adding what was found
extends the log, and a filling always shows the log so far.  The layers hold
these two together: after the layer of a width, the chart is final for spans up
to that width.
-/

namespace ChartParsing

open Outcome Grouping

/-! ## Searching -/

/-- The chart is final for the spans narrower than a width. -/
def Chart.AgreesBelow (chart : Chart) (known : Constituent → Bool) (width : Nat) : Prop :=
  ∀ constituent : Constituent, constituent.span.Within chart.numTokens →
    constituent.span.width < width → chart.holds constituent = known constituent

theorem Chart.numTokens_lt {chart : Chart} (hfits : chart.Fits) :
    chart.numTokens < Word.limit := by
  have hrows := hfits.rows_lt
  have hle : chart.numTokens ≤ chart.numTokens * chart.numTokens := Nat.le_mul_self _
  omega

section Search

variable {grammar : Grammar} {chart : Chart} {known : Constituent → Bool}
  {allowed : Fault → Prop} {span : Span} {split combinations : Nat}
  {entries : List (Symbol × Witness)}

theorem Findings.tryPair_meets {group : (Symbol × Symbol) × List Symbol}
    (hleft : chart.contains ⟨group.1.1, ⟨span.start, split⟩⟩ =
      .ok (known ⟨group.1.1, ⟨span.start, split⟩⟩))
    (hright : chart.contains ⟨group.1.2, ⟨split, span.stop⟩⟩ =
      .ok (known ⟨group.1.2, ⟨split, span.stop⟩⟩))
    (hoverflow : Word.limit ≤ combinations + 1 → allowed .overflow) :
    Meets allowed (fun result => result =
        ⟨span, (entries ++ Grammar.pairEntries known span split group).toArray, combinations + 1⟩)
      (tryPair chart split ⟨span.start, split⟩ ⟨split, span.stop⟩
        ⟨span, entries.toArray, combinations⟩ group) := by
  rcases group with ⟨⟨left, right⟩, heads⟩
  apply (checked_meets hoverflow).bind
  rintro _ ⟨rfl, -⟩
  simp only at hleft hright
  rw [hleft, Grammar.pairEntries, Grammar.joins]
  cases known ⟨left, ⟨span.start, split⟩⟩ with
  | false =>
      apply Meets.pure
      simp
  | true =>
      simp only [hright]
      cases known ⟨right, ⟨split, span.stop⟩⟩ with
      | false =>
          apply Meets.pure
          simp
      | true =>
          apply Meets.pure
          simp

theorem Grammar.searchSplit_meets (hfits : chart.Fits) (hspan : span.Within chart.numTokens)
    (hagree : chart.AgreesBelow known span.width) (hstart : span.start < split)
    (hstop : split < span.stop)
    (hoverflow : Word.limit ≤ combinations + grammar.binary.groups.length → allowed .overflow) :
    Meets allowed (fun result => result =
        ⟨span, (entries ++ grammar.splitEntries known span split).toArray,
          combinations + grammar.binary.groups.length⟩)
      (grammar.searchSplit chart ⟨span, entries.toArray, combinations⟩ split) := by
  have hstopLe := hspan.stop_le
  have hpart : ∀ symbol start stop, start < stop → stop ≤ chart.numTokens →
      stop - start < span.width →
      chart.contains ⟨symbol, ⟨start, stop⟩⟩ = .ok (known ⟨symbol, ⟨start, stop⟩⟩) := by
    intro symbol start stop hlt hle hwidth
    have hwithin : (⟨start, stop⟩ : Span).Within chart.numTokens := ⟨hlt, hle⟩
    rw [Chart.contains_eq hfits hwithin.hasRow, hagree ⟨symbol, ⟨start, stop⟩⟩ hwithin hwidth]
  simp only [Span.width] at hpart
  rw [searchSplit, Span.splitAt, if_pos ⟨hstart, hstop⟩]
  change Meets allowed _ (grammar.binary.groups.foldlM
    (Findings.tryPair chart split ⟨span.start, split⟩ ⟨split, span.stop⟩) _)
  refine Meets.foldlM (fun done (result : Findings) => result =
    ⟨span, (entries ++ done.flatMap (pairEntries known span split)).toArray,
      combinations + done.length⟩) ?_ ?_
  · simp
  · rintro done group rest _ hgroups rfl
    have hlength : combinations + done.length + 1 ≤
        combinations + grammar.binary.groups.length := by
      rw [hgroups, List.length_append, List.length_cons]
      omega
    apply (Findings.tryPair_meets (hpart _ _ _ hstart (by omega) (by omega))
      (hpart _ _ _ hstop hstopLe (by omega)) (fun hlarge => hoverflow (by omega))).mono
    rintro _ rfl
    simp [Nat.add_assoc]

theorem Grammar.searchSpan_meets (hfits : chart.Fits) (hspan : span.Within chart.numTokens)
    (hagree : chart.AgreesBelow known span.width)
    (hoverflow : Word.limit ≤ (grammar.findings known span).combinations → allowed .overflow) :
    Meets allowed (fun result => result = grammar.findings known span)
      (grammar.searchSpan chart span) := by
  have hlimit := Chart.numTokens_lt hfits
  rcases hspan with ⟨hstart, hstop⟩
  have hsplits : span.splits = .ok (splitPositions span) := by
    rw [Span.splits, Span.splitBounds, Word.checked_of_lt (by omega)]
    rfl
  rw [searchSpan, hsplits]
  refine (Meets.foldlM (fun done (result : Findings) => result =
    ⟨span, (done.flatMap (grammar.splitEntries known span)).toArray,
      done.length * grammar.binary.groups.length⟩) ?_ ?_).mono ?_
  · simp [Findings.empty]
  · rintro done split rest _ hpositions rfl
    have hsplit : split ∈ splitPositions span := by
      simp [hpositions]
    rw [mem_splitPositions] at hsplit
    have hlength : (done.length + 1) * grammar.binary.groups.length ≤
        (splitPositions span).length * grammar.binary.groups.length := by
      apply Nat.mul_le_mul_right
      simp [hpositions]
    apply (searchSplit_meets hfits ⟨hstart, hstop⟩ hagree hsplit.1 hsplit.2 ?_).mono
    · rintro _ rfl
      simp [Nat.succ_mul]
    · rw [← Nat.succ_mul]
      intro hlarge
      exact hoverflow (Nat.le_trans hlarge hlength)
  · rintro _ rfl
    rfl

theorem Grammar.combinations_findings (grammar : Grammar) (known : Constituent → Bool)
    (start width : Nat) :
    (grammar.findings known ⟨start, start + width⟩).combinations =
      (width - 1) * grammar.binary.groups.length := by
  rw [findings, length_splitPositions]

theorem Grammar.sum_combinations_layer (grammar : Grammar) (known : Constituent → Bool)
    (numTokens width : Nat) :
    ((layer grammar known numTokens width).map Findings.combinations).sum =
      (numTokens + 1 - width) * ((width - 1) * grammar.binary.groups.length) := by
  simp [layer, Function.comp_def, combinations_findings]

theorem Grammar.searchLayer_meets (hfits : chart.Fits) {width : Nat} (hpos : 0 < width)
    (hwidth : width ≤ chart.numTokens) (hagree : chart.AgreesBelow known width)
    (hoverflow : Word.limit ≤ (width - 1) * grammar.binary.groups.length → allowed .overflow) :
    Meets allowed (fun layer => layer = grammar.layer known chart.numTokens width)
      (grammar.searchLayer chart width) := by
  have hlimit := Chart.numTokens_lt hfits
  have hstarts : chart.numTokens - width + 1 = chart.numTokens + 1 - width := by omega
  rw [searchLayer, Word.minus_of_le hwidth]
  change Meets allowed _ (Word.checked (chart.numTokens - width + 1) >>= _)
  rw [Word.checked_of_lt (by omega), hstarts]
  apply Meets.mapM
  intro start hstart
  rw [List.mem_range] at hstart
  rw [Word.checked_of_lt (by omega)]
  change Meets allowed _ (Span.between start (start + width) >>= _)
  rw [Span.between, if_pos (by omega)]
  apply searchSpan_meets hfits ⟨by simp only; omega, by simp only; omega⟩
  · simpa [Span.width] using hagree
  · rw [combinations_findings]
    exact hoverflow

end Search

/-! ## Adding -/

structure Observer.Obeys {σ : Type} (observer : Observer σ) (allowed : Fault → Prop) : Prop where
  notify : ∀ state event, Meets allowed (fun _ => True) (observer.notify state event)
  close : ∀ state completion, Meets allowed (fun _ => True) (observer.close state completion)

theorem Observer.silent_obeys {σ : Type} (allowed : Fault → Prop) :
    (Observer.silent : Observer σ).Obeys allowed :=
  ⟨fun _ _ => trivial, fun _ _ => trivial⟩

theorem Observer.obeys_true {σ : Type} (observer : Observer σ) :
    observer.Obeys fun _ => True where
  notify state event := by
    cases observer.notify state event <;> trivial
  close state completion := by
    cases observer.close state completion <;> trivial

/-- The chart, the evidence and the counts of a filling are those of a log. -/
structure Filling.Shows (filling : Filling) (numTokens numSymbols : Nat) (log : Log)
    (combinations : Nat) : Prop where
  numTokens_eq : filling.chart.numTokens = numTokens
  numSymbols_eq : filling.chart.numSymbols = numSymbols
  fits : filling.chart.Fits
  holds_iff : ∀ constituent : Constituent, constituent.span.Within numTokens →
    (filling.chart.holds constituent = true ↔ membersIn log constituent ≠ [])
  get?_eq : ∀ constituent, filling.evidence.get? constituent =
    if membersIn log constituent = [] then none else some (membersIn log constituent)
  numWitnesses_eq : filling.evidence.numWitnesses = log.length
  steps_eq : filling.stats.steps = log.length
  combinations_eq : filling.stats.combinations = combinations

section Adding

variable {σ : Type} {observer : Observer σ} {allowed : Fault → Prop} {progress : Progress σ}
  {numTokens numSymbols : Nat} {log : Log} {combinations : Nat}

def Constituent.Fits (constituent : Constituent) (numTokens numSymbols : Nat) : Prop :=
  constituent.span.Within numTokens ∧ constituent.symbol.id < numSymbols

theorem Filling.Shows.record {filling : Filling}
    (h : filling.Shows numTokens numSymbols log combinations) {constituent : Constituent}
    (witness : Witness) {raised : Std.TreeSet Nat}
    (hholds : ∀ other : Constituent, other.span.HasRow filling.chart.numTokens →
      Chart.holds { filling.chart with raised } other =
        (decide (other = constituent) || filling.chart.holds other)) :
    Filling.Shows
      ⟨{ filling.chart with raised }, filling.evidence.recorded constituent witness,
        { filling.stats with steps := filling.stats.steps + 1 }, filling.diagnostics⟩
      numTokens numSymbols (log ++ [(constituent, witness)]) combinations where
  numTokens_eq := h.numTokens_eq
  numSymbols_eq := h.numSymbols_eq
  fits := ⟨h.fits.rows_lt, h.fits.size_lt⟩
  holds_iff other hother := by
    have hbefore := h.holds_iff other hother
    rw [← h.numTokens_eq] at hother
    rw [hholds other hother.hasRow, membersIn_concat]
    by_cases heq : other = constituent
    · simp [heq]
    · rw [if_neg (Ne.symm heq), ← hbefore]
      simp [heq]
  get?_eq other := by
    rw [Evidence.get?_recorded, membersIn_concat, h.get?_eq constituent, h.get?_eq other]
    by_cases heq : other = constituent
    · subst heq
      by_cases hnil : membersIn log other = [] <;> simp [hnil]
    · simp [heq, Ne.symm heq]
  numWitnesses_eq := by
    simp [Evidence.recorded, h.numWitnesses_eq]
  steps_eq := by
    simp [h.steps_eq]
  combinations_eq := h.combinations_eq

theorem Progress.add_meets (hobserver : observer.Obeys allowed)
    (h : progress.filling.Shows numTokens numSymbols log combinations)
    {constituent : Constituent} (hfits : constituent.Fits numTokens numSymbols)
    (witness : Witness) (hoverflow : Word.limit ≤ log.length + 1 → allowed .overflow) :
    Meets allowed (fun next => next.filling.Shows numTokens numSymbols
        (log ++ [(constituent, witness)]) combinations)
      (progress.add observer constituent witness) := by
  rcases progress with ⟨filling, state⟩
  rcases hfits with ⟨hspan, hsymbol⟩
  simp only at h
  rw [← h.numTokens_eq] at hspan
  rw [← h.numSymbols_eq] at hsymbol
  have hrecord := filling.evidence.record_meets constituent witness (h.numWitnesses_eq ▸ hoverflow)
  rw [← h.steps_eq] at hoverflow
  obtain ⟨raised, hinsert, hholds⟩ := Chart.insert_eq h.fits hspan.hasRow hsymbol
  have hrest : ∀ entered, Meets allowed (fun next => next.filling.Shows numTokens numSymbols
      (log ++ [(constituent, witness)]) combinations) (do
        let evidence ← filling.evidence.record constituent witness
        let state ← observer.notify entered (.witnessed constituent witness)
        let steps ← Word.checked (filling.stats.steps + 1)
        return (⟨⟨{ filling.chart with raised }, evidence, { filling.stats with steps },
          filling.diagnostics⟩, state⟩ : Progress σ)) := by
    intro entered
    apply hrecord.bind
    rintro _ ⟨rfl, -⟩
    apply (hobserver.notify entered (.witnessed constituent witness)).bind
    rintro witnessed -
    apply (checked_meets hoverflow).bind
    rintro _ ⟨rfl, -⟩
    exact h.record witness hholds
  rw [add, hinsert]
  -- The two branches differ only in the first event, which the observer may refuse.
  cases filling.chart.holds constituent with
  | false =>
      apply (hobserver.notify state (.entered constituent)).bind
      exact fun entered _ => hrest entered
  | true => exact hrest state

theorem Progress.foldlM_add_meets {ι : Type} (record : ι → Constituent × Witness)
    (hobserver : observer.Obeys allowed)
    (h : progress.filling.Shows numTokens numSymbols log combinations) (items : List ι)
    (hfits : ∀ item ∈ items, (record item).1.Fits numTokens numSymbols)
    (hoverflow : Word.limit ≤ (log ++ items.map record).length → allowed .overflow) :
    Meets allowed (fun next => next.filling.Shows numTokens numSymbols
        (log ++ items.map record) combinations)
      (items.foldlM (fun progress item =>
        progress.add observer (record item).1 (record item).2) progress) := by
  refine Meets.foldlM (fun done (next : Progress σ) => next.filling.Shows numTokens numSymbols
    (log ++ done.map record) combinations) ?_ ?_
  · simpa using h
  · intro done item rest next hitems hnext
    rw [List.map_append, ← List.append_assoc]
    apply Progress.add_meets hobserver hnext (hfits item (by simp [hitems]))
    intro hlarge
    apply hoverflow
    simp only [hitems, List.map_append, List.map_cons, List.length_append, List.length_cons,
      List.length_map] at hlarge ⊢
    omega

theorem Progress.addFindings_meets (hobserver : observer.Obeys allowed)
    (h : progress.filling.Shows numTokens numSymbols log combinations) (findings : Findings)
    (hfits : ∀ record ∈ findings.log, record.1.Fits numTokens numSymbols)
    (hsteps : Word.limit ≤ (log ++ findings.log).length → allowed .overflow)
    (hcombinations : Word.limit ≤ combinations + findings.combinations → allowed .overflow) :
    Meets allowed (fun next => next.filling.Shows numTokens numSymbols (log ++ findings.log)
        (combinations + findings.combinations))
      (progress.addFindings observer findings) := by
  rcases progress with ⟨filling, state⟩
  simp only at h
  rw [← h.combinations_eq] at hcombinations
  apply (checked_meets hcombinations).bind
  rintro _ ⟨rfl, -⟩
  apply foldlM_add_meets (fun entry : Symbol × Witness => (⟨entry.1, findings.span⟩, entry.2))
    hobserver
  · exact ⟨h.numTokens_eq, h.numSymbols_eq, h.fits, h.holds_iff, h.get?_eq, h.numWitnesses_eq,
      h.steps_eq, by simp [h.combinations_eq]⟩
  · intro entry hentry
    exact hfits _ (List.mem_map_of_mem hentry)
  · exact hsteps

theorem Progress.foldlM_addFindings_meets (hobserver : observer.Obeys allowed)
    (h : progress.filling.Shows numTokens numSymbols log combinations) (layer : List Findings)
    (hfits : ∀ findings ∈ layer, ∀ record ∈ findings.log, record.1.Fits numTokens numSymbols)
    (hsteps : Word.limit ≤ (log ++ layer.flatMap Findings.log).length → allowed .overflow)
    (hcombinations : Word.limit ≤ combinations + (layer.map Findings.combinations).sum →
      allowed .overflow) :
    Meets allowed (fun next => next.filling.Shows numTokens numSymbols
        (log ++ layer.flatMap Findings.log)
        (combinations + (layer.map Findings.combinations).sum))
      (layer.foldlM (fun progress findings => progress.addFindings observer findings)
        progress) := by
  refine Meets.foldlM (fun done (next : Progress σ) => next.filling.Shows numTokens numSymbols
    (log ++ done.flatMap Findings.log)
    (combinations + (done.map Findings.combinations).sum)) ?_ ?_
  · simpa using h
  · intro done findings rest next hlayer hnext
    simp only [List.flatMap_append, List.flatMap_singleton, List.map_append, List.map_singleton,
      List.sum_append, List.sum_singleton, ← List.append_assoc, ← Nat.add_assoc]
    apply Progress.addFindings_meets hobserver hnext findings (hfits findings (by simp [hlayer]))
    · intro hlarge
      apply hsteps
      simp only [hlayer, List.flatMap_append, List.flatMap_cons, List.length_append] at hlarge ⊢
      omega
    · intro hlarge
      apply hcombinations
      simp only [hlayer, List.map_append, List.map_cons, List.sum_append, List.sum_cons]
      omega

theorem Progress.addUnknown_meets (hobserver : observer.Obeys allowed)
    (h : progress.filling.Shows numTokens numSymbols log combinations) (position : Nat)
    (token : String) :
    Meets allowed (fun next => next.filling.Shows numTokens numSymbols log combinations)
      (progress.addUnknown observer position token) := by
  rcases progress with ⟨filling, state⟩
  apply (hobserver.notify _ _).bind
  rintro notified -
  exact ⟨h.numTokens_eq, h.numSymbols_eq, h.fits, h.holds_iff, h.get?_eq, h.numWitnesses_eq,
    h.steps_eq, h.combinations_eq⟩

end Adding

/-! ## Filling -/

namespace Grammar

def workload (grammar : Grammar) (numTokens : Nat) (widths : List Nat) : Nat :=
  (widths.map fun width =>
    (numTokens + 1 - width) * ((width - 1) * grammar.binary.groups.length)).sum

theorem widths_eq {numTokens layers : Nat} (h : layers + 2 ≤ numTokens) :
    List.range' 2 (numTokens - 1) = List.range' 2 layers ++
      (layers + 2) :: List.range' (layers + 3) (numTokens - (layers + 2)) := by
  have hcount : numTokens - 1 = layers + (numTokens - (layers + 2) + 1) := by omega
  rw [hcount, ← List.range'_append_1, List.range'_succ, Nat.add_comm 2 layers]

theorem log_concat (grammar : Grammar) (known : Constituent → Bool) (tokens : List String)
    (widths : List Nat) (width : Nat) :
    grammar.log known tokens (widths ++ [width]) =
      grammar.log known tokens widths ++ grammar.layerLog known tokens.length width := by
  simp [log]

theorem length_log_le_append (grammar : Grammar) (known : Constituent → Bool)
    (tokens : List String) (widths more : List Nat) :
    (grammar.log known tokens widths).length ≤
      (grammar.log known tokens (widths ++ more)).length := by
  simp only [log, List.flatMap_append, List.length_append]
  omega

theorem workload_append (grammar : Grammar) (numTokens : Nat) (widths more : List Nat) :
    grammar.workload numTokens (widths ++ more) =
      grammar.workload numTokens widths + grammar.workload numTokens more := by
  simp [workload]

theorem workload_concat (grammar : Grammar) (numTokens : Nat) (widths : List Nat) (width : Nat) :
    grammar.workload numTokens (widths ++ [width]) = grammar.workload numTokens widths +
      (numTokens + 1 - width) * ((width - 1) * grammar.binary.groups.length) := by
  simp [workload]

section Filling

variable {σ : Type} {observer : Observer σ} {allowed : Fault → Prop} {progress : Progress σ}
  {grammar : Grammar} {rules : List Production} {known : Constituent → Bool}
  {tokens : List String} {log : Log} {numTokens combinations : Nat}

theorem unaryHeads_of_analyse? {token : String} {terminal : Symbol} {heads : List Symbol}
    (h : grammar.analyse? token = some (terminal, heads)) :
    heads = grammar.unaryHeads terminal := by
  unfold analyse? at h
  split at h
  · cases h
  · split at h
    · cases h
    · cases h
      rfl

theorem Indexes.fits_of_mem_findings (hgrammar : grammar.Indexes (headLabels rules) rules)
    {span : Span} (hspan : span.Within numTokens) {record : Constituent × Witness}
    (h : record ∈ (grammar.findings known span).log) :
    record.1.Fits numTokens grammar.numSymbols := by
  obtain ⟨entry, hentry, rfl⟩ := List.mem_map.mp h
  refine ⟨hspan, ?_⟩
  simp only [findings, splitEntries, List.mem_flatMap] at hentry
  rcases hentry with ⟨split, -, group, hgroup, hentry⟩
  unfold pairEntries at hentry
  split at hentry
  · obtain ⟨head, hhead, rfl⟩ := List.mem_map.mp hentry
    exact hgrammar.expands_id_lt (hgrammar.expands_iff_mem_groups.mpr ⟨_, hgroup, hhead⟩)
  · simp at hentry

theorem addToken_meets (hgrammar : grammar.Indexes (headLabels rules) rules)
    (hobserver : observer.Obeys allowed)
    (h : progress.filling.Shows numTokens grammar.numSymbols log combinations)
    (token : String) {position : Nat} (hposition : position < numTokens)
    (hoverflow : Word.limit ≤ (log ++ grammar.tokenLog token position).length →
      allowed .overflow) :
    Meets allowed (fun next => next.filling.Shows numTokens grammar.numSymbols
        (log ++ grammar.tokenLog token position) combinations)
      (grammar.addToken observer progress token position) := by
  have hlimit := Chart.numTokens_lt h.fits
  rw [h.numTokens_eq] at hlimit
  have hspan : Span.token position = .ok ⟨position, position + 1⟩ := by
    rw [Span.token, Word.checked_of_lt (by omega)]
    exact if_pos (Nat.lt_succ_self position)
  rw [addToken, hspan]
  cases hanalyse : grammar.analyse? token with
  | none =>
      simp only [tokenLog, hanalyse, List.append_nil]
      exact Progress.addUnknown_meets hobserver h position token
  | some analysis =>
      rcases analysis with ⟨terminal, heads⟩
      simp only [tokenLog, hanalyse] at hoverflow ⊢
      apply Progress.foldlM_add_meets (fun head => (⟨head, ⟨position, position + 1⟩⟩,
        Witness.leaf terminal)) hobserver h heads _ hoverflow
      intro head hhead
      rw [unaryHeads_of_analyse? hanalyse] at hhead
      exact ⟨⟨Nat.lt_succ_self position, hposition⟩, hgrammar.unaryHeads_id_lt hhead⟩

theorem addLayer_meets (hgrammar : grammar.Indexes (headLabels rules) rules)
    (hobserver : observer.Obeys allowed)
    (h : progress.filling.Shows numTokens grammar.numSymbols log combinations)
    {width : Nat} (hpos : 0 < width) (hwidth : width ≤ numTokens)
    (hagree : progress.filling.chart.AgreesBelow known width)
    (hsteps : Word.limit ≤ (log ++ grammar.layerLog known numTokens width).length →
      allowed .overflow)
    (hcombinations : Word.limit ≤ combinations +
      (numTokens + 1 - width) * ((width - 1) * grammar.binary.groups.length) →
        allowed .overflow) :
    Meets allowed (fun next => next.filling.Shows numTokens grammar.numSymbols
        (log ++ grammar.layerLog known numTokens width)
        (combinations + (numTokens + 1 - width) * ((width - 1) * grammar.binary.groups.length)) ∧
        (grammar.layer known numTokens width).foldlM (Progress.addFindings observer) progress =
          .ok next)
      (grammar.addLayer observer progress width) := by
  have hnumTokens := h.numTokens_eq
  have hstarts : 1 ≤ numTokens + 1 - width := by omega
  have hone := Nat.mul_le_mul_right ((width - 1) * grammar.binary.groups.length) hstarts
  apply (searchLayer_meets h.fits hpos (by omega) hagree
    (fun hlarge => hcombinations (by omega))).bind
  rintro _ rfl
  rw [hnumTokens]
  rw [← grammar.sum_combinations_layer known] at hcombinations ⊢
  apply Meets.and_eq
  apply Progress.foldlM_addFindings_meets hobserver h _ _ hsteps hcombinations
  intro findings hfindings record hrecord
  obtain ⟨start, hstart, rfl⟩ := List.mem_map.mp hfindings
  rw [List.mem_range] at hstart
  exact hgrammar.fits_of_mem_findings ⟨by simp only; omega, by simp only; omega⟩ hrecord

/-- No count of a run leaves the machine word. -/
structure FitsRun (grammar : Grammar) (known : Constituent → Bool) (tokens : List String) :
    Prop where
  rows_lt : tokens.length * tokens.length < Word.limit
  flags_lt : tokens.length * tokens.length * ((grammar.numSymbols + 31) / 32 * 32) < Word.limit
  steps_lt : (grammar.log known tokens (List.range' 2 (tokens.length - 1))).length < Word.limit
  combinations_lt :
    grammar.workload tokens.length (List.range' 2 (tokens.length - 1)) < Word.limit

/--
After the layers up to a width, the chart is final for the spans up to that width, and stays so
while the next layer is added.
-/
theorem agreesBelow_of_shows_append (hgrammar : grammar.Indexes (headLabels rules) rules)
    (hknown : ∀ constituent, known constituent = true ↔ grammar.Yields tokens constituent)
    {filling : Filling} {layers : Nat} {more : Log}
    (h : filling.Shows tokens.length grammar.numSymbols
      (grammar.log known tokens (List.range' 2 layers) ++ more) combinations)
    (hmore : ∀ record ∈ more, record.1.span.width = layers + 2) :
    filling.chart.AgreesBelow known (layers + 2) := by
  intro constituent hspan hwidth
  rw [h.numTokens_eq] at hspan
  have hnone : membersIn more constituent = [] := by
    apply membersIn_eq_nil
    rintro record hrecord rfl
    exact Nat.ne_of_lt hwidth (hmore record hrecord)
  rw [Bool.eq_iff_iff, h.holds_iff constituent hspan, membersIn_append, hnone, List.append_nil,
    membersIn_log_of_width_le hgrammar known hspan (by omega),
    witnesses_ne_nil_iff hgrammar hknown, hknown]

theorem agreesBelow_of_shows (hgrammar : grammar.Indexes (headLabels rules) rules)
    (hknown : ∀ constituent, known constituent = true ↔ grammar.Yields tokens constituent)
    {filling : Filling} {layers : Nat}
    (h : filling.Shows tokens.length grammar.numSymbols
      (grammar.log known tokens (List.range' 2 layers)) combinations) :
    filling.chart.AgreesBelow known (layers + 2) :=
  agreesBelow_of_shows_append hgrammar hknown (by rwa [List.append_nil]) (by simp)

theorem addTokens_meets (hgrammar : grammar.Indexes (headLabels rules) rules)
    (hobserver : observer.Obeys allowed)
    (h : progress.filling.Shows tokens.length grammar.numSymbols [] 0)
    (hoverflow : Word.limit ≤ (grammar.tokensLog tokens).length → allowed .overflow) :
    Meets allowed (fun next => next.filling.Shows tokens.length grammar.numSymbols
        (grammar.tokensLog tokens) 0)
      (tokens.zipIdx.foldlM
        (fun progress (token, position) => grammar.addToken observer progress token position)
        progress) := by
  refine Meets.foldlM (fun done (next : Progress σ) => next.filling.Shows tokens.length
    grammar.numSymbols
    (done.flatMap fun item : String × Nat => grammar.tokenLog item.1 item.2) 0) h ?_
  rintro done ⟨token, position⟩ rest next hitems hnext
  have hmem : (token, position) ∈ tokens.zipIdx := by
    simp [hitems]
  have hposition : position < tokens.length := by
    simpa using List.snd_lt_of_mem_zipIdx hmem
  simp only [List.flatMap_append, List.flatMap_singleton]
  apply addToken_meets hgrammar hobserver hnext token hposition
  intro hlarge
  apply hoverflow
  simp only [tokensLog, hitems, List.flatMap_append, List.flatMap_cons,
    List.length_append] at hlarge ⊢
  omega

theorem addLayers_meets (hgrammar : grammar.Indexes (headLabels rules) rules)
    (hknown : ∀ constituent, known constituent = true ↔ grammar.Yields tokens constituent)
    (hobserver : observer.Obeys allowed)
    (h : progress.filling.Shows tokens.length grammar.numSymbols (grammar.tokensLog tokens) 0)
    (hoverflow : ¬ grammar.FitsRun known tokens → allowed .overflow) {count : Nat}
    (hcount : count ≤ tokens.length - 1) :
    Meets allowed (fun next => next.filling.Shows tokens.length grammar.numSymbols
        (grammar.log known tokens (List.range' 2 count))
        (grammar.workload tokens.length (List.range' 2 count)) ∧
        ((List.range' 2 count).flatMap (grammar.layer known tokens.length)).foldlM
          (Progress.addFindings observer) progress = .ok next)
      ((List.range' 2 count).foldlM (grammar.addLayer observer) progress) := by
  refine Meets.foldlM (fun done (next : Progress σ) => next.filling.Shows tokens.length
    grammar.numSymbols (grammar.log known tokens done) (grammar.workload tokens.length done) ∧
    (done.flatMap (grammar.layer known tokens.length)).foldlM (Progress.addFindings observer)
      progress = .ok next) ?_ ?_
  · exact ⟨by simpa [log, workload] using h, rfl⟩
  · rintro done width rest next hwidths ⟨hnext, hdone⟩
    obtain ⟨layers, -, rfl, hrest⟩ := List.range'_eq_append_iff.mp hwidths
    obtain ⟨hfirst, hlt, -⟩ := List.range'_eq_cons_iff.mp hrest.symm
    have hwidth : width = layers + 2 := by omega
    subst hwidth
    -- The counts of the whole run bound those of the layers so far.
    have hall := widths_eq (show layers + 2 ≤ tokens.length by omega)
    rw [List.append_cons] at hall
    rw [log_concat, workload_concat, List.flatMap_append, List.flatMap_singleton,
      List.foldlM_append, hdone]
    apply addLayer_meets hgrammar hobserver hnext (by omega) (by omega)
      (agreesBelow_of_shows hgrammar hknown hnext)
    · intro hlarge
      apply hoverflow
      intro hfits
      have hsteps := hfits.steps_lt
      rw [hall] at hsteps
      rw [← log_concat] at hlarge
      have hle := grammar.length_log_le_append known tokens
        (List.range' 2 layers ++ [layers + 2])
        (List.range' (layers + 3) (tokens.length - (layers + 2)))
      omega
    · intro hlarge
      apply hoverflow
      intro hfits
      have hcombinations := hfits.combinations_lt
      rw [hall, workload_append, workload_concat] at hcombinations
      omega

theorem Indexes.numSymbols_lt (hgrammar : grammar.Indexes (headLabels rules) rules) :
    grammar.numSymbols + 32 < Word.limit := by
  have hsize := hgrammar.symbols.size_lt
  simp only [Symbol.limit, Word.limit, numSymbols] at hsize ⊢
  omega

theorem blank_meets (hgrammar : grammar.Indexes (headLabels rules) rules)
    (hoverflow : ¬ grammar.FitsRun known tokens → allowed .overflow) :
    Meets allowed (fun chart => (Filling.ofChart chart).Shows tokens.length grammar.numSymbols
        [] 0)
      (Chart.blank tokens.length grammar.numSymbols) := by
  apply (Chart.blank_meets
    (fun hlarge => hoverflow fun hfits => Nat.not_lt.mpr hlarge hfits.rows_lt)
    hgrammar.numSymbols_lt
    (fun hlarge => hoverflow fun hfits => Nat.not_lt.mpr hlarge hfits.flags_lt)).mono
  rintro chart ⟨hfits, hnumTokens, hnumSymbols, hblank⟩
  exact ⟨hnumTokens, hnumSymbols, hfits, by simp [Filling.ofChart, hblank, membersIn],
    by intro constituent; rfl, rfl, rfl, rfl⟩

theorem fillTokens_meets (hgrammar : grammar.Indexes (headLabels rules) rules)
    (hobserver : observer.Obeys allowed)
    (hoverflow : ¬ grammar.FitsRun known tokens → allowed .overflow) (state : σ) :
    Meets allowed (fun progress => progress.filling.Shows tokens.length grammar.numSymbols
        (grammar.tokensLog tokens) 0)
      (grammar.fillTokens observer state tokens) := by
  apply (blank_meets hgrammar hoverflow).bind
  intro chart hstart
  apply addTokens_meets hgrammar hobserver hstart
  intro hlarge
  apply hoverflow
  intro hfits
  have hsteps := hfits.steps_lt
  simp only [log, List.length_append] at hsteps
  omega

theorem fillBelow_meets (hgrammar : grammar.Indexes (headLabels rules) rules)
    (hknown : ∀ constituent, known constituent = true ↔ grammar.Yields tokens constituent)
    (hobserver : observer.Obeys allowed)
    (hoverflow : ¬ grammar.FitsRun known tokens → allowed .overflow) (state : σ) {count : Nat}
    (hcount : count ≤ tokens.length - 1) :
    Meets allowed (fun progress => progress.filling.Shows tokens.length grammar.numSymbols
        (grammar.log known tokens (List.range' 2 count))
        (grammar.workload tokens.length (List.range' 2 count)) ∧
        (grammar.fillTokens observer state tokens >>= fun tokensDone =>
          ((List.range' 2 count).flatMap (grammar.layer known tokens.length)).foldlM
            (Progress.addFindings observer) tokensDone) = .ok progress)
      (grammar.fillBelow observer state tokens (count + 2)) := by
  apply (fillTokens_meets hgrammar hobserver hoverflow state).and_eq.bind
  rintro tokensDone ⟨hshows, htokens⟩
  apply (addLayers_meets hgrammar hknown hobserver hshows hoverflow hcount).mono
  rintro progress ⟨hprogress, hlayers⟩
  exact ⟨hprogress, bind_eq_ok.mpr ⟨tokensDone, htokens, hlayers⟩⟩

/-- The run that searches for nothing: what there is to find is dictated. -/
def dictate (grammar : Grammar) (known : Constituent → Bool) (observer : Observer σ) (state : σ)
    (tokens : List String) : Except Fault (Progress σ) := do
  let progress ← grammar.fillTokens observer state tokens
  let ⟨filling, state⟩ ← ((List.range' 2 (tokens.length - 1)).flatMap
    (grammar.layer known tokens.length)).foldlM (Progress.addFindings observer) progress
  return ⟨filling, ← observer.close state filling.completion⟩

theorem fillBelow_all (grammar : Grammar) (observer : Observer σ) (state : σ)
    (tokens : List String) :
    grammar.fillBelow observer state tokens (tokens.length + 1) =
      grammar.fillBelow observer state tokens (tokens.length - 1 + 2) := by
  have hcount : tokens.length + 1 - 2 = tokens.length - 1 + 2 - 2 := by omega
  rw [fillBelow, hcount, fillBelow]

/--
A run gives the filling that shows the whole log, as if it were dictated, or stops with a fault
that is allowed.
-/
theorem fill_meets (hgrammar : grammar.Indexes (headLabels rules) rules)
    (hknown : ∀ constituent, known constituent = true ↔ grammar.Yields tokens constituent)
    (hobserver : observer.Obeys allowed)
    (hoverflow : ¬ grammar.FitsRun known tokens → allowed .overflow) (state : σ) :
    Meets allowed (fun progress => progress.filling.Shows tokens.length grammar.numSymbols
        (grammar.log known tokens (List.range' 2 (tokens.length - 1)))
        (grammar.workload tokens.length (List.range' 2 (tokens.length - 1))) ∧
        grammar.dictate known observer state tokens = .ok progress)
      (grammar.fill observer state tokens) := by
  rw [fill, fillBelow_all]
  apply (fillBelow_meets hgrammar hknown hobserver hoverflow state (Nat.le_refl _)).bind
  rintro ⟨filling, heard⟩ ⟨hfilling, hdictated⟩
  apply (hobserver.close _ _).and_eq.bind
  rintro closed ⟨-, hclosed⟩
  refine ⟨hfilling, ?_⟩
  obtain ⟨tokensDone, htokens, hlayers⟩ := bind_eq_ok.mp hdictated
  rw [dictate]
  exact bind_eq_ok.mpr ⟨tokensDone, htokens, bind_eq_ok.mpr ⟨_, hlayers,
    bind_eq_ok.mpr ⟨closed, hclosed, rfl⟩⟩⟩

theorem shows_of_fill (hgrammar : grammar.Indexes (headLabels rules) rules)
    (hknown : ∀ constituent, known constituent = true ↔ grammar.Yields tokens constituent)
    {state : σ} (hfill : grammar.fill observer state tokens = .ok progress) :
    progress.filling.Shows tokens.length grammar.numSymbols
      (grammar.log known tokens (List.range' 2 (tokens.length - 1)))
      (grammar.workload tokens.length (List.range' 2 (tokens.length - 1))) :=
  ((fill_meets hgrammar hknown observer.obeys_true (fun _ => trivial) state).of_eq_ok hfill).1

theorem dictate_of_fill (hgrammar : grammar.Indexes (headLabels rules) rules)
    (hknown : ∀ constituent, known constituent = true ↔ grammar.Yields tokens constituent)
    {state : σ} (hfill : grammar.fill observer state tokens = .ok progress) :
    grammar.dictate known observer state tokens = .ok progress :=
  ((fill_meets hgrammar hknown observer.obeys_true (fun _ => trivial) state).of_eq_ok hfill).2

theorem fill_silent_of_fitsRun (hgrammar : grammar.Indexes (headLabels rules) rules)
    (hknown : ∀ constituent, known constituent = true ↔ grammar.Yields tokens constituent)
    (hfits : grammar.FitsRun known tokens) (state : σ) :
    ∃ progress, grammar.fill .silent state tokens = .ok progress :=
  (fill_meets hgrammar hknown (Observer.silent_obeys fun _ => False)
    (fun hnot => hnot hfits) state).exists_ok

end Filling

end Grammar

end ChartParsing
