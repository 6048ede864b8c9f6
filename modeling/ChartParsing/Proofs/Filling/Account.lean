import ChartParsing.Proofs.Filling.Actions
import ChartParsing.Proofs.Filling.Observation
import ChartParsing.Proofs.Filling.Witnesses
import ChartParsing.Proofs.Tables

/-!
# What a filling counts and reports

The log of a run has every witness once, so its steps are as many as there are
witnesses.  A run that comes to its end has kept its counts in range, and has
reported the tokens that no rule expands to, by position.
-/

namespace ChartParsing

open Outcome Grouping

/-! ## No step twice -/

theorem nodup_of_membersIn {κ α : Type} [DecidableEq κ] {pairs : List (κ × α)}
    (h : ∀ key, (membersIn pairs key).Nodup) : pairs.Nodup := by
  induction pairs with
  | nil => exact List.nodup_nil
  | cons pair pairs ih =>
      rw [List.nodup_cons]
      constructor
      · intro hmem
        have hkey := h pair.1
        have hmembers : membersIn (pair :: pairs) pair.1 = pair.2 :: membersIn pairs pair.1 := by
          simp [membersIn]
        rw [hmembers, List.nodup_cons] at hkey
        exact hkey.1 (mem_membersIn.mpr hmem)
      · apply ih
        intro key
        have hsublist : List.Sublist (membersIn pairs key) (membersIn (pair :: pairs) key) :=
          ((List.sublist_cons_self pair pairs).filter _).map _
        exact (h key).sublist hsublist

namespace Grammar

section Counts

variable {grammar : Grammar} {rules : List Production} {tokens : List String}
  {known : Constituent → Bool}

theorem nodup_witnesses (hgrammar : grammar.Indexes (headLabels rules) rules)
    (constituent : Constituent) : (grammar.witnesses known tokens constituent).Nodup := by
  by_cases htoken : constituent.span.stop = constituent.span.start + 1
  · rw [witnesses, splitWitnesses_of_token htoken, List.append_nil, leafWitnesses]
    split
    · split <;> simp
    · exact List.nodup_nil
  · rw [witnesses, leafWitnesses_of_long htoken]
    exact nodup_splitWitnesses hgrammar known constituent

section Log

variable (hgrammar : grammar.Indexes (headLabels rules) rules)
  (hknown : ∀ constituent, known constituent = true ↔ grammar.Yields tokens constituent)

include hgrammar hknown

theorem mem_fullLog_iff {record : Constituent × Witness} :
    record ∈ grammar.log known tokens (List.range' 2 (tokens.length - 1)) ↔
      grammar.Backs tokens record.1 record.2 := by
  rw [← mem_witnesses_iff hgrammar hknown, ← membersIn_fullLog hgrammar hknown, mem_membersIn]

theorem nodup_fullLog :
    (grammar.log known tokens (List.range' 2 (tokens.length - 1))).Nodup := by
  apply nodup_of_membersIn
  intro constituent
  rw [membersIn_fullLog hgrammar hknown]
  exact nodup_witnesses hgrammar constituent

end Log

end Counts

end Grammar

/-! ## One action after another -/

def unknownTokens (rules : List Production) (tokens : List String) : List Diagnostic :=
  tokens.zipIdx.flatMap fun (token, position) =>
    if token ∈ terminalLabels rules then [] else [.unknownToken position token]

theorem mem_unknownTokens_iff {rules : List Production} {tokens : List String} {position : Nat}
    {token : String} :
    .unknownToken position token ∈ unknownTokens rules tokens ↔
      tokens[position]? = some token ∧ token ∉ terminalLabels rules := by
  simp only [unknownTokens, List.mem_flatMap, Prod.exists, List.mk_mem_zipIdx_iff_getElem?]
  constructor
  · rintro ⟨other, place, hother, hmem⟩
    split at hmem
    · cases hmem
    · rename_i hunknown
      cases List.mem_singleton.mp hmem
      exact ⟨hother, hunknown⟩
  · rintro ⟨htoken, hunknown⟩
    exact ⟨token, position, htoken, by simp [hunknown]⟩

def Action.diagnostics : Action → List Diagnostic
  | .tally .. | .add .. => []
  | .report position token => [.unknownToken position token]

structure Stats.Fits (stats : Stats) : Prop where
  steps_lt : stats.steps < Word.limit
  combinations_lt : stats.combinations < Word.limit

section Reports

variable {σ : Type} {observer : Observer σ} {progress next : Progress σ}

theorem Progress.account_of_perform {action : Action}
    (h : progress.perform observer action = .ok next) (hfits : progress.filling.stats.Fits) :
    next.filling.stats.Fits ∧
      next.filling.diagnostics = progress.filling.diagnostics ++ action.diagnostics := by
  rcases progress with ⟨filling, state⟩
  cases action with
  | tally span combinations =>
      rcases bind_eq_ok.mp h with ⟨counted, hcounted, hnext⟩
      rcases checked_eq_ok_iff.mp hcounted with ⟨hlt, rfl⟩
      cases hnext
      exact ⟨⟨hfits.steps_lt, hlt⟩, by simp [Action.diagnostics]⟩
  | add constituent witness =>
      rw [perform] at h
      rcases add_eq_ok h with ⟨absent, chart, -, -, -, hlt, hnext⟩
      rw [hnext]
      exact ⟨⟨hlt, hfits.combinations_lt⟩, by simp [Action.diagnostics]⟩
  | report position token =>
      rcases bind_eq_ok.mp h with ⟨told, -, hnext⟩
      cases hnext
      exact ⟨hfits, rfl⟩

theorem Progress.account_of_foldlM_perform {actions : List Action}
    (h : actions.foldlM (perform observer) progress = .ok next)
    (hfits : progress.filling.stats.Fits) :
    next.filling.stats.Fits ∧ next.filling.diagnostics =
      progress.filling.diagnostics ++ actions.flatMap Action.diagnostics := by
  induction actions generalizing progress with
  | nil =>
      cases h
      exact ⟨hfits, by simp⟩
  | cons action actions ih =>
      rw [List.foldlM_cons] at h
      rcases bind_eq_ok.mp h with ⟨middle, hmiddle, hrest⟩
      rcases account_of_perform hmiddle hfits with ⟨hmiddleFits, hdiagnostics⟩
      rcases ih hrest hmiddleFits with ⟨hnextFits, hnext⟩
      refine ⟨hnextFits, ?_⟩
      rw [hnext, hdiagnostics, List.flatMap_cons, List.append_assoc]

theorem Findings.diagnostics_actions (findings : Findings) :
    findings.actions.flatMap Action.diagnostics = [] := by
  simp [Findings.actions, Action.diagnostics, List.flatMap_map]

theorem Progress.account_of_foldlM_addFindings {layer : List Findings}
    (h : layer.foldlM (addFindings observer) progress = .ok next)
    (hfits : progress.filling.stats.Fits) :
    next.filling.stats.Fits ∧ next.filling.diagnostics = progress.filling.diagnostics := by
  rw [foldlM_addFindings_eq] at h
  obtain ⟨hnext, hdiagnostics⟩ := account_of_foldlM_perform h hfits
  have hnone : (layer.flatMap Findings.actions).flatMap Action.diagnostics = [] := by
    rw [List.flatMap_assoc, List.flatMap_eq_nil_iff]
    intro findings _
    exact findings.diagnostics_actions
  rw [hnone, List.append_nil] at hdiagnostics
  exact ⟨hnext, hdiagnostics⟩

end Reports

namespace Grammar

section Reports

variable {grammar : Grammar} {rules : List Production} {tokens : List String}

theorem analyse?_eq_none_iff (hgrammar : grammar.Indexes (headLabels rules) rules)
    {token : String} : grammar.analyse? token = none ↔ token ∉ terminalLabels rules := by
  by_cases htoken : token ∈ terminalLabels rules
  · rcases mem_terminalLabels_iff.mp htoken with ⟨lhs, hrule⟩
    rcases hgrammar.exists_symbol hrule.lhs_mem with ⟨head, hhead⟩
    rcases hgrammar.exists_terminal hrule with ⟨terminal, hterminal⟩
    have hmem : head ∈ grammar.unaryHeads terminal :=
      hgrammar.mem_unaryHeads_iff.mpr ⟨lhs, token, hrule, hhead, hterminal⟩
    rcases List.exists_cons_of_ne_nil (List.ne_nil_of_mem hmem) with ⟨first, rest, hheads⟩
    simp [analyse?, hterminal, hheads, htoken]
  · cases hterminal : grammar.symbol? token with
    | none => simp [analyse?, hterminal, htoken]
    | some terminal =>
        have hnil : grammar.unaryHeads terminal = [] := by
          apply hgrammar.unaryHeads_eq_nil
          intro other hother hsymbol
          exact htoken (hgrammar.symbols.label_inj hsymbol hterminal ▸ hother)
        simp [analyse?, hterminal, hnil, htoken]

theorem diagnostics_tokenActions (hgrammar : grammar.Indexes (headLabels rules) rules)
    (token : String) (position : Nat) :
    (grammar.tokenActions token position).flatMap Action.diagnostics =
      if token ∈ terminalLabels rules then [] else [.unknownToken position token] := by
  rw [tokenActions]
  cases hanalyse : grammar.analyse? token with
  | none => simp [(analyse?_eq_none_iff hgrammar).mp hanalyse, Action.diagnostics]
  | some analysis =>
      have htoken : token ∈ terminalLabels rules := by
        by_contra hnot
        rw [(analyse?_eq_none_iff hgrammar).mpr hnot] at hanalyse
        cases hanalyse
      simp [htoken, Action.diagnostics, List.flatMap_map]

theorem diagnostics_actions (hgrammar : grammar.Indexes (headLabels rules) rules)
    (known : Constituent → Bool) (tokens : List String) :
    (grammar.actions known tokens).flatMap Action.diagnostics = unknownTokens rules tokens := by
  simp [actions, unknownTokens, List.flatMap_append, List.flatMap_assoc,
    Findings.diagnostics_actions, diagnostics_tokenActions hgrammar]

section Runs

variable {σ : Type} {observer : Observer σ} {state : σ} {progress : Progress σ}
  (hgrammar : grammar.Indexes (headLabels rules) rules)
  (hfill : grammar.fill observer state tokens = .ok progress)

include hgrammar hfill

theorem account_of_fill :
    progress.filling.stats.Fits ∧ progress.filling.diagnostics = unknownTokens rules tokens := by
  rcases grammar.exists_known tokens with ⟨known, hknown⟩
  rcases recorded_of_fill hfill with ⟨events, hrecorded⟩
  rcases perform_of_fill hgrammar hknown hrecorded with ⟨blank, -, hactions⟩
  have hstart : (Filling.ofChart blank).stats.Fits := by
    constructor <;> simp [Filling.ofChart, Word.limit]
  rcases Progress.account_of_foldlM_perform hactions hstart with ⟨hfits, hdiagnostics⟩
  rw [diagnostics_actions hgrammar] at hdiagnostics
  exact ⟨hfits, by simpa [Filling.ofChart] using hdiagnostics⟩

/-- A run that ended had room for all it did. -/
theorem fitsRun_of_fill {known : Constituent → Bool}
    (hknown : ∀ constituent, known constituent = true ↔ grammar.Yields tokens constituent) :
    grammar.FitsRun known tokens := by
  have hshows := shows_of_fill hgrammar hknown hfill
  have hstats := (account_of_fill hgrammar hfill).1
  constructor
  · rw [← hshows.numTokens_eq]
    exact hshows.fits.rows_lt
  · rw [← hshows.numTokens_eq, ← hshows.numSymbols_eq]
    exact hshows.fits.size_lt
  · rw [← hshows.steps_eq]
    exact hstats.steps_lt
  · rw [← hshows.combinations_eq]
    exact hstats.combinations_lt

end Runs

end Reports

end Grammar

end ChartParsing
