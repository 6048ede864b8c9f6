import ChartParsing.Proofs.Filling.Run
import Mathlib.Data.Prod.Lex

/-!
# A run as one list of actions

The loops of a run come down to a list of actions on the filling: for each
token, what it adds or that it is unknown; for each cell of a layer, the
combinations tried there and then what was found.  What there is to find is
known beforehand, so the list can be written down before the run, and with it
the order in which the spans are visited.
-/

namespace ChartParsing

open Outcome

variable {σ : Type}

/-! ## What a run does -/

inductive Action where
  | tally (span : Span) (combinations : Nat)
  | add (constituent : Constituent) (witness : Witness)
  | report (position : Nat) (token : String)

def Progress.perform (observer : Observer σ) (progress : Progress σ) :
    Action → Except Fault (Progress σ)
  | .tally _ combinations => do
      let ⟨filling, state⟩ := progress
      let combinations ← Word.checked (filling.stats.combinations + combinations)
      return ⟨{ filling with stats := { filling.stats with combinations } }, state⟩
  | .add constituent witness => progress.add observer constituent witness
  | .report position token => progress.addUnknown observer position token

def Findings.actions (findings : Findings) : List Action :=
  .tally findings.span findings.combinations ::
    findings.entries.toList.map fun entry => .add ⟨entry.1, findings.span⟩ entry.2

namespace Grammar

section Actions

variable (grammar : Grammar) (known : Constituent → Bool)

def tokenActions (token : String) (position : Nat) : List Action :=
  match grammar.analyse? token with
  | some (terminal, heads) =>
      heads.map fun head => .add ⟨head, ⟨position, position + 1⟩⟩ (.leaf terminal)
  | none => [.report position token]

def allFindings (numTokens : Nat) : List Findings :=
  (List.range' 2 (numTokens - 1)).flatMap (grammar.layer known numTokens)

def actions (tokens : List String) : List Action :=
  (tokens.zipIdx.flatMap fun item => grammar.tokenActions item.1 item.2) ++
    (grammar.allFindings known tokens.length).flatMap Findings.actions

end Actions

end Grammar

theorem Progress.addFindings_eq_foldlM (observer : Observer σ) (progress : Progress σ)
    (findings : Findings) :
    progress.addFindings observer findings =
      findings.actions.foldlM (Progress.perform observer) progress := by
  rcases progress with ⟨filling, state⟩
  simp only [addFindings, Findings.actions, List.foldlM_cons, List.foldlM_map, perform]
  cases Word.checked (filling.stats.combinations + findings.combinations) with
  | error fault => rfl
  | ok combinations => rfl

theorem Progress.foldlM_addFindings_eq (observer : Observer σ) (progress : Progress σ)
    (layer : List Findings) :
    layer.foldlM (addFindings observer) progress =
      (layer.flatMap Findings.actions).foldlM (perform observer) progress := by
  rw [foldlM_flatMap]
  apply foldlM_congr
  intro findings _ state
  exact state.addFindings_eq_foldlM observer findings

theorem Grammar.addToken_eq_foldlM (grammar : Grammar) (observer : Observer σ)
    (progress : Progress σ) (token : String) {position : Nat}
    (hposition : position + 1 < Word.limit) :
    grammar.addToken observer progress token position =
      (grammar.tokenActions token position).foldlM (Progress.perform observer) progress := by
  have hspan : Span.token position = .ok ⟨position, position + 1⟩ := by
    rw [Span.token, Word.checked_of_lt hposition]
    exact if_pos (Nat.lt_succ_self position)
  unfold addToken tokenActions
  rw [hspan]
  cases grammar.analyse? token with
  | none =>
      simp only [List.foldlM_cons, List.foldlM_nil, Progress.perform, bind_pure]
      rfl
  | some analysis =>
      simp only [List.foldlM_map]
      rfl

/-- A recorded run performs its actions one after another on a blank chart. -/
theorem Grammar.perform_of_fill {grammar : Grammar} {rules : List Production}
    (hgrammar : grammar.Indexes (headLabels rules) rules) {known : Constituent → Bool}
    {tokens : List String}
    (hknown : ∀ constituent, known constituent = true ↔ grammar.Yields tokens constituent)
    {progress : Progress (Array Event)}
    (hfill : grammar.fill .recorder #[] tokens = .ok progress) :
    ∃ blank, Chart.blank tokens.length grammar.numSymbols = .ok blank ∧
      (grammar.actions known tokens).foldlM (Progress.perform .recorder) ⟨.ofChart blank, #[]⟩ =
        .ok progress := by
  have hshows := shows_of_fill hgrammar hknown hfill
  have hlimit := Chart.numTokens_lt hshows.fits
  rw [hshows.numTokens_eq] at hlimit
  obtain ⟨middle, hprefix, hrest⟩ := bind_eq_ok.mp (dictate_of_fill hgrammar hknown hfill)
  obtain ⟨blank, hblank, htokens⟩ := bind_eq_ok.mp hprefix
  obtain ⟨last, hlayers, hclose⟩ := bind_eq_ok.mp hrest
  cases hclose
  refine ⟨blank, hblank, ?_⟩
  have htokens : (tokens.zipIdx.flatMap fun item => grammar.tokenActions item.1 item.2).foldlM
      (Progress.perform .recorder) ⟨.ofChart blank, #[]⟩ = .ok middle := by
    rw [foldlM_flatMap, ← htokens]
    apply foldlM_congr
    intro item hitem state
    have hposition : item.2 < tokens.length := by
      simpa using List.snd_lt_of_mem_zipIdx hitem
    exact (grammar.addToken_eq_foldlM .recorder state item.1 (by omega)).symm
  have hlayers : ((grammar.allFindings known tokens.length).flatMap Findings.actions).foldlM
      (Progress.perform .recorder) middle = .ok last := by
    rw [← Progress.foldlM_addFindings_eq]
    exact hlayers
  rw [actions, List.foldlM_append, htokens]
  exact hlayers

/-! ## The order of actions -/

def Span.place (span : Span) : Nat ×ₗ Nat := toLex (span.width, span.start)

def Action.place : Action → Nat ×ₗ Nat
  | .tally span _ => span.place
  | .add constituent _ => constituent.span.place
  | .report position _ => toLex (1, position)

def Action.Fits (numTokens numSymbols : Nat) : Action → Prop
  | .add constituent _ => constituent.Fits numTokens numSymbols
  | .tally .. | .report .. => True

theorem pairwise_flatMap_of_key {α β : Type} {items : List α} {f : α → List β}
    (key : α → Nat ×ₗ Nat) (place : β → Nat ×ₗ Nat)
    (hkeys : items.Pairwise fun first second => key first ≤ key second)
    (hplace : ∀ item ∈ items, ∀ value ∈ f item, place value = key item) :
    (items.flatMap f).Pairwise fun first second => place first ≤ place second := by
  rw [List.pairwise_flatMap]
  constructor
  · intro item hitem
    apply List.pairwise_of_forall_mem_list
    intro first hfirst second hsecond
    rw [hplace item hitem first hfirst, hplace item hitem second hsecond]
  · apply hkeys.imp_of_mem
    intro item other hitem hother hle first hfirst second hsecond
    rw [hplace item hitem first hfirst, hplace other hother second hsecond]
    exact hle

theorem Findings.place_of_mem_actions {findings : Findings} {action : Action}
    (h : action ∈ findings.actions) : action.place = findings.span.place := by
  rcases List.mem_cons.mp h with rfl | h
  · rfl
  · obtain ⟨entry, -, rfl⟩ := List.mem_map.mp h
    rfl

namespace Grammar

section Order

variable {grammar : Grammar} {known : Constituent → Bool} {numTokens : Nat}

theorem place_of_mem_tokenActions {token : String} {position : Nat} {action : Action}
    (h : action ∈ grammar.tokenActions token position) : action.place = toLex (1, position) := by
  unfold tokenActions at h
  split at h
  · obtain ⟨head, -, rfl⟩ := List.mem_map.mp h
    simp [Action.place, Span.place, Span.width]
  · rw [List.mem_singleton] at h
    rw [h, Action.place]

theorem place_of_mem_layer {width : Nat} {findings : Findings}
    (h : findings ∈ grammar.layer known numTokens width) :
    ∃ start, findings.span.place = toLex (width, start) := by
  obtain ⟨start, -, rfl⟩ := List.mem_map.mp h
  exact ⟨start, by simp [Grammar.findings, Span.place, Span.width]⟩

theorem pairwise_allFindings (grammar : Grammar) (known : Constituent → Bool) (numTokens : Nat) :
    (grammar.allFindings known numTokens).Pairwise fun first second =>
      first.span.place ≤ second.span.place := by
  rw [allFindings, List.pairwise_flatMap]
  constructor
  · intro width _
    rw [layer, List.pairwise_map]
    apply List.pairwise_lt_range.imp
    intro first second hlt
    simp [findings, Span.place, Span.width, Prod.Lex.toLex_le_toLex, hlt.le]
  · apply List.Pairwise.imp _ (List.pairwise_lt_range' 1)
    intro width wider hlt first hfirst second hsecond
    obtain ⟨start, hfirst⟩ := place_of_mem_layer hfirst
    obtain ⟨other, hsecond⟩ := place_of_mem_layer hsecond
    rw [hfirst, hsecond]
    exact Prod.Lex.toLex_le_toLex.mpr (.inl hlt)

/-- A run visits the spans by width and then by start. -/
theorem pairwise_actions (grammar : Grammar) (known : Constituent → Bool)
    (tokens : List String) :
    (grammar.actions known tokens).Pairwise fun first second =>
      first.place ≤ second.place := by
  rw [actions, List.pairwise_append]
  refine ⟨?_, ?_, ?_⟩
  · apply pairwise_flatMap_of_key (fun item : String × Nat => toLex (1, item.2))
    · have hpositions : (tokens.zipIdx.map Prod.snd).Pairwise (· < ·) := by
        rw [List.zipIdx_map_snd]
        exact List.pairwise_lt_range' 1
      apply (List.pairwise_map.mp hpositions).imp
      intro first second hlt
      exact Prod.Lex.toLex_le_toLex.mpr (.inr ⟨rfl, hlt.le⟩)
    · intro item _ action haction
      exact place_of_mem_tokenActions haction
  · apply pairwise_flatMap_of_key (fun findings : Findings => findings.span.place)
    · exact grammar.pairwise_allFindings known tokens.length
    · intro findings _ action haction
      exact Findings.place_of_mem_actions haction
  · intro first hfirst second hsecond
    obtain ⟨item, -, hfirst⟩ := List.mem_flatMap.mp hfirst
    obtain ⟨findings, hfindings, hsecond⟩ := List.mem_flatMap.mp hsecond
    obtain ⟨width, hwidth, hfindings⟩ := List.mem_flatMap.mp hfindings
    obtain ⟨start, hstart⟩ := place_of_mem_layer hfindings
    rw [List.mem_range'_1] at hwidth
    rw [place_of_mem_tokenActions hfirst, Findings.place_of_mem_actions hsecond, hstart]
    exact Prod.Lex.toLex_le_toLex.mpr (.inl hwidth.1)

theorem fits_of_mem_actions {rules : List Production}
    (hgrammar : grammar.Indexes (headLabels rules) rules) (known : Constituent → Bool)
    {tokens : List String} {action : Action} (h : action ∈ grammar.actions known tokens) :
    action.Fits tokens.length grammar.numSymbols := by
  rcases List.mem_append.mp h with h | h
  · obtain ⟨⟨token, position⟩, hitem, h⟩ := List.mem_flatMap.mp h
    have hposition : position < tokens.length := by
      simpa using List.snd_lt_of_mem_zipIdx hitem
    unfold tokenActions at h
    split at h
    · rename_i terminal heads hanalyse
      obtain ⟨head, hhead, rfl⟩ := List.mem_map.mp h
      rw [unaryHeads_of_analyse? hanalyse] at hhead
      exact ⟨⟨Nat.lt_succ_self position, hposition⟩, hgrammar.unaryHeads_id_lt hhead⟩
    · rw [List.mem_singleton] at h
      subst h
      trivial
  · obtain ⟨findings, hfindings, h⟩ := List.mem_flatMap.mp h
    obtain ⟨width, hwidth, hfindings⟩ := List.mem_flatMap.mp hfindings
    obtain ⟨start, hstart, rfl⟩ := List.mem_map.mp hfindings
    rw [List.mem_range'_1] at hwidth
    rw [List.mem_range] at hstart
    rcases List.mem_cons.mp h with rfl | h
    · trivial
    · obtain ⟨entry, hentry, rfl⟩ := List.mem_map.mp h
      have hspan : (⟨start, start + width⟩ : Span).Within tokens.length :=
        ⟨by simp only; omega, by simp only; omega⟩
      exact hgrammar.fits_of_mem_findings hspan (List.mem_map_of_mem hentry)

end Order

end Grammar

end ChartParsing
