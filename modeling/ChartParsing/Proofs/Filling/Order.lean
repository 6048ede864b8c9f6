import ChartParsing.Proofs.Filling.Account

/-!
# The cells of a layer in any order

A run fills the cells of one width from the chart as it was before the layer,
and then adds them by start.  Here the cells are filled one after another in
any order, each from the chart as it is by then, and added at once.  A cell
depends on narrower spans alone, and adding it changes none of these, so that
the same is found for every cell.  Adding the same in another order leaves the
same filling, because no two cells share a constituent.
-/

namespace ChartParsing

open Outcome Grouping

/-! ## Runs that stop at a width -/

namespace Grammar

section Definitions

variable {σ : Type} (grammar : Grammar) (observer : Observer σ)

/-- Fills the cell of one span from the chart as it is, and adds to it at once. -/
def addCell (width : Nat) (progress : Progress σ) (start : Nat) : Except Fault (Progress σ) := do
  let stop ← Word.checked (start + width)
  let findings ← grammar.searchSpan progress.filling.chart (← Span.between start stop)
  progress.addFindings observer findings

def cells (known : Constituent → Bool) (width : Nat) (starts : List Nat) : List Findings :=
  starts.map fun start => grammar.findings known ⟨start, start + width⟩

end Definitions

end Grammar

/-- The same flags are up, and the evidence, the counts and the reports are the same. -/
structure Filling.Same (first second : Filling) : Prop where
  numTokens_eq : first.chart.numTokens = second.chart.numTokens
  numSymbols_eq : first.chart.numSymbols = second.chart.numSymbols
  mem_raised_iff : ∀ place, place ∈ first.chart.raised ↔ place ∈ second.chart.raised
  get?_eq : ∀ constituent, first.evidence.get? constituent = second.evidence.get? constituent
  numWitnesses_eq : first.evidence.numWitnesses = second.evidence.numWitnesses
  stats_eq : first.stats = second.stats
  diagnostics_eq : first.diagnostics = second.diagnostics

/-! ## Flags -/

/-- The second chart is the first with the flags of the constituents in a log up as well. -/
def Chart.Raises (chart : Chart) (log : Log) (next : Chart) : Prop :=
  ∃ raised, next = { chart with raised } ∧ ∀ place, place ∈ raised ↔
    place ∈ chart.raised ∨ ∃ record ∈ log, chart.position record.1 = .ok place

section Flags

variable {σ : Type} {observer : Observer σ} {progress next : Progress σ}

theorem Chart.raises_of_insert {chart next : Chart} {constituent : Constituent} {absent : Bool}
    (h : chart.insert constituent = .ok (absent, next)) (witness : Witness) :
    chart.Raises [(constituent, witness)] next := by
  obtain ⟨place, hplace, h⟩ := bind_eq_ok.mp h
  split at h
  · rename_i hup
    cases h
    refine ⟨chart.raised, rfl, fun other => ?_⟩
    constructor
    · exact .inl
    · simp only [List.mem_singleton, exists_eq_left, hplace, Except.ok.injEq]
      rintro (hother | rfl)
      · exact hother
      · exact hup
  · cases h
    refine ⟨_, rfl, fun other => ?_⟩
    simp only [Std.TreeSet.mem_insert, Std.LawfulEqCmp.compare_eq_iff_eq, List.mem_singleton,
      exists_eq_left, hplace, Except.ok.injEq]
    exact or_comm

theorem Progress.raises_of_add {constituent : Constituent} {witness : Witness}
    (h : progress.add observer constituent witness = .ok next) :
    progress.filling.chart.Raises [(constituent, witness)] next.filling.chart := by
  obtain ⟨absent, chart, hinsert, -, -, -, hnext⟩ := add_eq_ok h
  rw [hnext]
  exact Chart.raises_of_insert hinsert witness

theorem Progress.foldlM_raises {ι : Type} {step : Progress σ → ι → Except Fault (Progress σ)}
    {log : ι → Log}
    (hstep : ∀ progress item next, step progress item = .ok next →
      progress.filling.chart.Raises (log item) next.filling.chart)
    {items : List ι} (h : items.foldlM step progress = .ok next) :
    progress.filling.chart.Raises (items.flatMap log) next.filling.chart := by
  induction items generalizing progress with
  | nil =>
      cases h
      exact ⟨_, rfl, by simp⟩
  | cons item items ih =>
      rw [List.foldlM_cons] at h
      obtain ⟨middle, hmiddle, hrest⟩ := bind_eq_ok.mp h
      obtain ⟨raised, hchart, hraised⟩ := hstep _ _ _ hmiddle
      obtain ⟨raised', hchart', hraised'⟩ := ih hrest
      -- Where a flag is depends on the sizes of the chart, which no step changes.
      have hposition : middle.filling.chart.position = progress.filling.chart.position := by
        rw [hchart]
        rfl
      refine ⟨raised', by rw [hchart', hchart], fun place => ?_⟩
      rw [hraised', hposition, hchart]
      simp only [hraised, List.flatMap_cons, List.mem_append, or_and_right, exists_or, or_assoc]

theorem Progress.raises_of_addFindings {findings : Findings}
    (h : progress.addFindings observer findings = .ok next) :
    progress.filling.chart.Raises findings.log next.filling.chart := by
  rcases progress with ⟨filling, state⟩
  obtain ⟨combinations, -, h⟩ := bind_eq_ok.mp h
  have hraises := foldlM_raises (fun progress (entry : Symbol × Witness) next hadd =>
    raises_of_add hadd) h
  rwa [← List.map_eq_flatMap] at hraises

end Flags

/-! ## Before the layer -/

namespace Grammar

section Below

variable {σ : Type} {observer : Observer σ} {state : σ} {progress next : Progress σ}
  {grammar : Grammar} {rules : List Production} {known : Constituent → Bool}
  {tokens : List String} {width : Nat}

theorem fillBelow_of_fill (hmin : 2 ≤ width) (hmax : width ≤ tokens.length)
    (hfill : grammar.fill observer state tokens = .ok progress) :
    ∃ before layer, grammar.fillBelow observer state tokens width = .ok before ∧
      grammar.addLayer observer before width = .ok layer := by
  obtain ⟨layers, rfl⟩ := Nat.exists_eq_add_of_le' hmin
  rw [fill_eq_close, fillBelow_all] at hfill
  obtain ⟨last, hbelow, -⟩ := bind_eq_ok.mp hfill
  obtain ⟨middle, htokens, hlayers⟩ := bind_eq_ok.mp hbelow
  rw [Nat.add_sub_cancel, widths_eq hmax, List.foldlM_append] at hlayers
  obtain ⟨before, hbefore, hlayers⟩ := bind_eq_ok.mp hlayers
  rw [List.foldlM_cons] at hlayers
  obtain ⟨layer, hlayer, -⟩ := bind_eq_ok.mp hlayers
  exact ⟨before, layer, bind_eq_ok.mpr ⟨middle, htokens, hbefore⟩, hlayer⟩

theorem fits_of_addToken {token : String} {position : Nat}
    (h : grammar.addToken observer progress token position = .ok next)
    (hfits : progress.filling.stats.Fits) : next.filling.stats.Fits := by
  obtain ⟨span, hspan, -⟩ := bind_eq_ok.mp h
  obtain ⟨stop, hstop, -⟩ := bind_eq_ok.mp hspan
  obtain ⟨hlimit, -⟩ := checked_eq_ok_iff.mp hstop
  rw [addToken_eq_foldlM grammar observer progress token hlimit] at h
  exact (Progress.account_of_foldlM_perform h hfits).1

theorem fits_of_addLayer (h : grammar.addLayer observer progress width = .ok next)
    (hfits : progress.filling.stats.Fits) : next.filling.stats.Fits := by
  obtain ⟨layer, -, h⟩ := bind_eq_ok.mp h
  exact (Progress.account_of_foldlM_addFindings h hfits).1

theorem fits_of_fillBelow (h : grammar.fillBelow observer state tokens width = .ok progress) :
    progress.filling.stats.Fits := by
  obtain ⟨middle, hprefix, hlayers⟩ := bind_eq_ok.mp h
  obtain ⟨chart, -, htokens⟩ := bind_eq_ok.mp hprefix
  have hblank : (Filling.ofChart chart).stats.Fits := by
    constructor <;> simp [Filling.ofChart, Word.limit]
  have hmiddle := foldlM_keeps (fun progress : Progress σ => progress.filling.stats.Fits)
    (fun _ _ _ hstep hkept => fits_of_addToken hstep hkept) htokens hblank
  exact foldlM_keeps (fun progress : Progress σ => progress.filling.stats.Fits)
    (fun _ _ _ hstep hkept => fits_of_addLayer hstep hkept) hlayers hmiddle

theorem shows_of_fillBelow (hgrammar : grammar.Indexes (headLabels rules) rules)
    (hknown : ∀ constituent, known constituent = true ↔ grammar.Yields tokens constituent)
    {layers : Nat} (hmax : layers + 2 ≤ tokens.length)
    (h : grammar.fillBelow observer state tokens (layers + 2) = .ok progress) :
    progress.filling.Shows tokens.length grammar.numSymbols
      (grammar.log known tokens (List.range' 2 layers))
      (grammar.workload tokens.length (List.range' 2 layers)) := by
  exact ((fillBelow_meets hgrammar hknown observer.obeys_true (fun _ => trivial) state
    (by omega)).of_eq_ok h).1

end Below

/-! ## The layer, cell by cell -/

section Cells

variable {σ : Type} {observer : Observer σ} {allowed : Fault → Prop} {progress : Progress σ}
  {grammar : Grammar} {rules : List Production} {known : Constituent → Bool}
  {tokens : List String} {log : Log} {numTokens combinations width : Nat} {starts : List Nat}

theorem addCell_meets (hgrammar : grammar.Indexes (headLabels rules) rules)
    (hobserver : observer.Obeys allowed)
    (h : progress.filling.Shows numTokens grammar.numSymbols log combinations) {start : Nat}
    (hpos : 0 < width) (hstop : start + width ≤ numTokens)
    (hagree : progress.filling.chart.AgreesBelow known width)
    (hsteps : Word.limit ≤ (log ++ (grammar.findings known ⟨start, start + width⟩).log).length →
      allowed .overflow)
    (hcombinations : Word.limit ≤
      combinations + (grammar.findings known ⟨start, start + width⟩).combinations →
        allowed .overflow) :
    Meets allowed (fun next => next.filling.Shows numTokens grammar.numSymbols
        (log ++ (grammar.findings known ⟨start, start + width⟩).log)
        (combinations + (grammar.findings known ⟨start, start + width⟩).combinations) ∧
        progress.addFindings observer (grammar.findings known ⟨start, start + width⟩) = .ok next)
      (grammar.addCell observer width progress start) := by
  have hlimit := Chart.numTokens_lt h.fits
  have hnumTokens := h.numTokens_eq
  have hspan : (⟨start, start + width⟩ : Span).Within numTokens :=
    ⟨Nat.lt_add_of_pos_right hpos, hstop⟩
  rw [addCell, Word.checked_of_lt (by omega)]
  change Meets allowed _ (Span.between start (start + width) >>= _)
  rw [Span.between, if_pos (Nat.lt_add_of_pos_right hpos)]
  have hsearch : Meets allowed
      (fun result => result = grammar.findings known ⟨start, start + width⟩)
      (grammar.searchSpan progress.filling.chart ⟨start, start + width⟩) := by
    apply searchSpan_meets h.fits (hnumTokens ▸ hspan)
    · simpa [Span.width] using hagree
    · intro hlarge
      exact hcombinations (Nat.le_trans hlarge (Nat.le_add_left _ _))
  apply hsearch.bind
  rintro _ rfl
  apply Meets.and_eq
  apply Progress.addFindings_meets hobserver h _ _ hsteps hcombinations
  intro record hrecord
  exact hgrammar.fits_of_mem_findings hspan hrecord

theorem cells_concat (grammar : Grammar) (known : Constituent → Bool) (width : Nat)
    (starts : List Nat) (start : Nat) :
    grammar.cells known width (starts ++ [start]) =
      grammar.cells known width starts ++ [grammar.findings known ⟨start, start + width⟩] := by
  simp [cells]

theorem span_of_mem_cells {record : Constituent × Witness}
    (h : record ∈ (grammar.cells known width starts).flatMap Findings.log) :
    ∃ start ∈ starts, record.1.span = ⟨start, start + width⟩ := by
  rw [List.mem_flatMap] at h
  obtain ⟨findings, hfindings, hrecord⟩ := h
  obtain ⟨start, hstart, rfl⟩ := List.mem_map.mp hfindings
  exact ⟨start, hstart, span_of_mem_findings hrecord⟩

theorem addCells_meets (hgrammar : grammar.Indexes (headLabels rules) rules)
    (hknown : ∀ constituent, known constituent = true ↔ grammar.Yields tokens constituent)
    (hobserver : observer.Obeys allowed) {layers : Nat} {before : Filling} {state : σ}
    (h : before.Shows tokens.length grammar.numSymbols
      (grammar.log known tokens (List.range' 2 layers)) combinations)
    (hstarts : ∀ start ∈ starts, start + (layers + 2) ≤ tokens.length)
    (hsteps : Word.limit ≤ (grammar.log known tokens (List.range' 2 layers) ++
      (grammar.cells known (layers + 2) starts).flatMap Findings.log).length → allowed .overflow)
    (hcombinations : Word.limit ≤ combinations +
      ((grammar.cells known (layers + 2) starts).map Findings.combinations).sum →
        allowed .overflow) :
    Meets allowed (fun next => next.filling.Shows tokens.length grammar.numSymbols
        (grammar.log known tokens (List.range' 2 layers) ++
          (grammar.cells known (layers + 2) starts).flatMap Findings.log)
        (combinations +
          ((grammar.cells known (layers + 2) starts).map Findings.combinations).sum) ∧
        (grammar.cells known (layers + 2) starts).foldlM (Progress.addFindings observer)
          ⟨before, state⟩ = .ok next)
      (starts.foldlM (grammar.addCell observer (layers + 2)) ⟨before, state⟩) := by
  refine Meets.foldlM (fun done (next : Progress σ) => next.filling.Shows tokens.length
    grammar.numSymbols (grammar.log known tokens (List.range' 2 layers) ++
      (grammar.cells known (layers + 2) done).flatMap Findings.log)
    (combinations + ((grammar.cells known (layers + 2) done).map Findings.combinations).sum) ∧
    (grammar.cells known (layers + 2) done).foldlM (Progress.addFindings observer)
      ⟨before, state⟩ = .ok next) ?_ ?_
  · exact ⟨by simpa [cells] using h, rfl⟩
  · rintro done start rest next hlist ⟨hnext, hdone⟩
    have hagree : next.filling.chart.AgreesBelow known (layers + 2) := by
      apply agreesBelow_of_shows_append hgrammar hknown hnext
      intro record hrecord
      obtain ⟨start, -, hspan⟩ := span_of_mem_cells hrecord
      simp [hspan, Span.width]
    rw [cells_concat, List.foldlM_append, hdone, List.flatMap_append, List.flatMap_singleton,
      List.map_append, List.map_singleton, List.sum_append, List.sum_singleton,
      ← List.append_assoc, ← Nat.add_assoc combinations]
    refine (addCell_meets hgrammar hobserver hnext (by omega) (hstarts start (by simp [hlist]))
      hagree ?_ ?_).mono ?_
    · intro hlarge
      apply hsteps
      simp only [hlist, cells, List.map_append, List.map_cons, List.flatMap_append,
        List.flatMap_cons, List.length_append] at hlarge ⊢
      omega
    · intro hlarge
      apply hcombinations
      simp only [hlist, cells, List.map_append, List.map_cons, List.sum_append,
        List.sum_cons] at hlarge ⊢
      omega
    · rintro final ⟨hfinal, hadd⟩
      refine ⟨hfinal, ?_⟩
      change List.foldlM (Progress.addFindings observer) next [_] = _
      rw [List.foldlM_cons, hadd]
      rfl

/-! ## Two orders -/

theorem flatMap_eq_of_perm {ι α : Type} {items others : List ι} {f : ι → List α}
    (hperm : items.Perm others) (hnodup : items.Nodup)
    (hunique : ∀ item ∈ items, ∀ other ∈ items, f item ≠ [] → f other ≠ [] → item = other) :
    items.flatMap f = others.flatMap f := by
  by_cases hsome : ∃ item ∈ items, f item ≠ []
  · obtain ⟨item, hitem, hne⟩ := hsome
    have hrest : ∀ other ∈ items, other ≠ item → f other = [] := by
      intro other hother hdistinct
      by_contra hother'
      exact hdistinct (hunique other hother item hitem hother' hne)
    rw [flatMap_eq_of_unique hnodup hitem hrest,
      flatMap_eq_of_unique (hperm.nodup_iff.mp hnodup) (hperm.mem_iff.mp hitem)
        fun other hother => hrest other (hperm.mem_iff.mpr hother)]
  · have hnone : ∀ item ∈ items, f item = [] := by
      intro item hitem
      by_contra hne
      exact hsome ⟨item, hitem, hne⟩
    rw [List.flatMap_eq_nil_iff.mpr hnone, List.flatMap_eq_nil_iff.mpr fun other hother =>
      hnone other (hperm.mem_iff.mpr hother)]

theorem membersIn_cells_of_perm {others : List Nat} (hperm : starts.Perm others)
    (hnodup : starts.Nodup) (constituent : Constituent) :
    membersIn ((grammar.cells known width starts).flatMap Findings.log) constituent =
      membersIn ((grammar.cells known width others).flatMap Findings.log) constituent := by
  simp only [cells, List.flatMap_map, membersIn_flatMap]
  apply flatMap_eq_of_perm hperm hnodup
  have hspan : ∀ start,
      membersIn (grammar.findings known ⟨start, start + width⟩).log constituent ≠ [] →
        start = constituent.span.start := by
    intro start hne
    by_contra hother
    apply hne
    apply membersIn_eq_nil
    rintro record hrecord rfl
    rw [span_of_mem_findings hrecord] at hother
    exact hother rfl
  intro start _ other _ hstart hother
  rw [hspan start hstart, hspan other hother]

end Cells

end Grammar

section Orders

variable {σ τ : Type} {observer : Observer σ} {other : Observer τ} {before : Filling}
  {state : σ} {otherState : τ} {first : Progress σ} {second : Progress τ} {grammar : Grammar}
  {known : Constituent → Bool} {log : Log} {numTokens numSymbols combinations width : Nat}
  {starts others : List Nat}

theorem Filling.same_of_perm (hperm : starts.Perm others) (hnodup : starts.Nodup)
    (hfits : before.stats.Fits)
    (hfirst : first.filling.Shows numTokens numSymbols
      (log ++ (grammar.cells known width starts).flatMap Findings.log)
      (combinations + ((grammar.cells known width starts).map Findings.combinations).sum))
    (hsecond : second.filling.Shows numTokens numSymbols
      (log ++ (grammar.cells known width others).flatMap Findings.log)
      (combinations + ((grammar.cells known width others).map Findings.combinations).sum))
    (hfirstAdds : (grammar.cells known width starts).foldlM (Progress.addFindings observer)
      ⟨before, state⟩ = .ok first)
    (hsecondAdds : (grammar.cells known width others).foldlM (Progress.addFindings other)
      ⟨before, otherState⟩ = .ok second) :
    first.filling.Same second.filling := by
  have hcells : (grammar.cells known width starts).Perm (grammar.cells known width others) :=
    hperm.map _
  have hlogs := hcells.flatMap_right Findings.log
  refine ⟨?_, ?_, ?_, ?_, ?_, ?_, ?_⟩
  · rw [hfirst.numTokens_eq, hsecond.numTokens_eq]
  · rw [hfirst.numSymbols_eq, hsecond.numSymbols_eq]
  · obtain ⟨raised, hchart, hraised⟩ := Progress.foldlM_raises
      (fun _ _ _ hadd => Progress.raises_of_addFindings hadd) hfirstAdds
    obtain ⟨raised', hchart', hraised'⟩ := Progress.foldlM_raises
      (fun _ _ _ hadd => Progress.raises_of_addFindings hadd) hsecondAdds
    intro place
    rw [hchart, hchart', hraised, hraised']
    simp only [hlogs.mem_iff]
  · intro constituent
    rw [hfirst.get?_eq, hsecond.get?_eq]
    simp only [membersIn_append, Grammar.membersIn_cells_of_perm hperm hnodup]
  · rw [hfirst.numWitnesses_eq, hsecond.numWitnesses_eq, List.length_append, List.length_append,
      hlogs.length_eq]
  · have hsteps : first.filling.stats.steps = second.filling.stats.steps := by
      rw [hfirst.steps_eq, hsecond.steps_eq, List.length_append, List.length_append,
        hlogs.length_eq]
    have hcombinations :
        first.filling.stats.combinations = second.filling.stats.combinations := by
      rw [hfirst.combinations_eq, hsecond.combinations_eq, (hcells.map _).sum_eq]
    calc first.filling.stats
      _ = ⟨first.filling.stats.steps, first.filling.stats.combinations⟩ := rfl
      _ = second.filling.stats := by rw [hsteps, hcombinations]
  · rw [(Progress.account_of_foldlM_addFindings hfirstAdds hfits).2,
      (Progress.account_of_foldlM_addFindings hsecondAdds hfits).2]

end Orders

namespace Grammar

section Layers

variable {σ : Type} {observer : Observer σ} {state : σ} {before layer : Progress σ}
  {grammar : Grammar} {rules : List Production} {known : Constituent → Bool}
  {tokens : List String} {layers combinations : Nat} {starts : List Nat}

theorem cells_of_addLayer (hgrammar : grammar.Indexes (headLabels rules) rules)
    (hknown : ∀ constituent, known constituent = true ↔ grammar.Yields tokens constituent)
    (hmax : layers + 2 ≤ tokens.length)
    (h : before.filling.Shows tokens.length grammar.numSymbols
      (grammar.log known tokens (List.range' 2 layers)) combinations)
    (hlayer : grammar.addLayer observer before (layers + 2) = .ok layer) :
    layer.filling.Shows tokens.length grammar.numSymbols
        (grammar.log known tokens (List.range' 2 layers) ++
          (grammar.layer known tokens.length (layers + 2)).flatMap Findings.log)
        (combinations +
          ((grammar.layer known tokens.length (layers + 2)).map Findings.combinations).sum) ∧
      (grammar.layer known tokens.length (layers + 2)).foldlM (Progress.addFindings observer)
        before = .ok layer := by
  rw [sum_combinations_layer]
  exact (addLayer_meets hgrammar observer.obeys_true h (by omega) hmax
    (agreesBelow_of_shows hgrammar hknown h) (fun _ => trivial) (fun _ => trivial)).of_eq_ok hlayer

end Layers

/--
The layer of a width, and its cells one after another in any order: both start from where a run has
filled the narrower spans, and if the layer can be added, so can the cells, with the same outcome.
-/
theorem layer_in_any_order {rules : List Production} {compilation : Compilation}
    (hcompile : compile rules = .ok compilation) {tokens : List String} {width : Nat}
    (hmin : 2 ≤ width) (hmax : width ≤ tokens.length) :
    (compilation.grammar.Admits tokens.length → ∃ before layer,
      compilation.grammar.fillBelow .silent () tokens width = .ok before ∧
        compilation.grammar.addLayer .silent before width = .ok layer) ∧
    ∀ (σ : Type) (observer : Observer σ) (state : σ),
      (∀ progress, compilation.grammar.fill observer state tokens = .ok progress →
        ∃ before layer, compilation.grammar.fillBelow observer state tokens width = .ok before ∧
          compilation.grammar.addLayer observer before width = .ok layer) ∧
      ∀ before layer, compilation.grammar.fillBelow observer state tokens width = .ok before →
        compilation.grammar.addLayer observer before width = .ok layer →
        ∀ starts : List Nat, starts.Perm (List.range (tokens.length - width + 1)) →
          (∃ final, starts.foldlM (compilation.grammar.addCell .silent width)
            ⟨before.filling, ()⟩ = .ok final) ∧
          ∀ (τ : Type) (other : Observer τ) (otherState : τ) final,
            starts.foldlM (compilation.grammar.addCell other width)
              ⟨before.filling, otherState⟩ = .ok final →
            layer.filling.Same final.filling := by
  have hgrammar := indexes_of_compile hcompile
  obtain ⟨known, hknown⟩ := compilation.grammar.exists_known tokens
  refine ⟨?_, fun σ observer state => ⟨fun progress => fillBelow_of_fill hmin hmax, ?_⟩⟩
  · intro hadmits
    obtain ⟨progress, hfill⟩ := exists_fill_silent hgrammar hadmits ()
    exact fillBelow_of_fill hmin hmax hfill
  · intro before layer hbefore hlayer starts hperm
    have hbeforeFits := fits_of_fillBelow hbefore
    have hlayerFits := fits_of_addLayer hlayer hbeforeFits
    obtain ⟨layers, rfl⟩ := Nat.exists_eq_add_of_le' hmin
    have hshows := shows_of_fillBelow hgrammar hknown hmax hbefore
    have hstarts : ∀ start ∈ starts, start + (layers + 2) ≤ tokens.length := by
      intro start hstart
      have hrange := List.mem_range.mp (hperm.mem_iff.mp hstart)
      omega
    have hnumStarts : tokens.length - (layers + 2) + 1 = tokens.length + 1 - (layers + 2) := by
      omega
    rw [hnumStarts] at hperm
    have hcells : (compilation.grammar.cells known (layers + 2) starts).Perm
        (compilation.grammar.layer known tokens.length (layers + 2)) :=
      hperm.map _
    obtain ⟨hlayerShows, hlayerAdds⟩ := cells_of_addLayer hgrammar hknown hmax hshows hlayer
    constructor
    · apply Meets.exists_ok
      apply addCells_meets hgrammar hknown (Observer.silent_obeys fun _ => False) hshows hstarts
      -- The counts end up as those of the layer, which did not leave the machine word.
      · intro hlarge
        have hsteps := hlayerFits.steps_lt
        rw [hlayerShows.steps_eq, List.length_append,
          ← (hcells.flatMap_right Findings.log).length_eq, ← List.length_append] at hsteps
        omega
      · intro hlarge
        have hcombinations := hlayerFits.combinations_lt
        rw [hlayerShows.combinations_eq, ← (hcells.map _).sum_eq] at hcombinations
        omega
    · intro τ other otherState final hfinal
      obtain ⟨hfinalShows, hfinalAdds⟩ := (addCells_meets hgrammar hknown other.obeys_true hshows
        hstarts (fun _ => trivial) (fun _ => trivial)).of_eq_ok hfinal
      exact Filling.same_of_perm hperm.symm List.nodup_range hbeforeFits hlayerShows hfinalShows
        hlayerAdds hfinalAdds

theorem layer_in_any_order_doubling :
    ∃ compilation before layer final, compile doubling = .ok compilation ∧
      compilation.grammar.fillBelow .silent () ["a", "a", "a"] 2 = .ok before ∧
      compilation.grammar.addLayer .silent before 2 = .ok layer ∧
      [1, 0].foldlM (compilation.grammar.addCell .silent 2) before = .ok final ∧
      layer.filling.Same final.filling := by
  have hadmits : (compile doubling).toOption.map
      (fun compilation => decide (compilation.grammar.Admits 3)) = some true := by
    decide +kernel
  cases hcompile : compile doubling with
  | error fault =>
      rw [hcompile] at hadmits
      cases hadmits
  | ok compilation =>
      rw [hcompile] at hadmits
      obtain ⟨hrun, horders⟩ := @layer_in_any_order _ _ hcompile ["a", "a", "a"] 2 (by decide)
        (by decide)
      obtain ⟨before, layer, hbefore, hlayer⟩ := hrun (of_decide_eq_true (Option.some.inj hadmits))
      obtain ⟨⟨final, hfinal⟩, hsame⟩ :=
        (horders Unit .silent ()).2 before layer hbefore hlayer [1, 0] (by decide)
      exact ⟨compilation, before, layer, final, rfl, hbefore, hlayer, hfinal,
        hsame Unit .silent () final hfinal⟩

end Grammar

end ChartParsing
