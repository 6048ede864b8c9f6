import ChartParsing.Proofs.Filling.Actions
import ChartParsing.Proofs.Filling.Observation
import ChartParsing.Proofs.Recognition

/-!
# The record of a run

Every action of a run tells the observer what it changed.  So the recorded
events stand in the order of the spans, each constituent is entered once, right
before its first witness, and whoever does again what the events tell of gets
the same chart and the same evidence.
-/

namespace ChartParsing

open Outcome

def Event.place : Event → Nat ×ₗ Nat
  | .entered constituent => constituent.span.place
  | .witnessed constituent _ => constituent.span.place
  | .unknown position _ => toLex (1, position)

/-! ## Entering and witnessing -/

/-- A constituent is entered right before its first witness. -/
structure Event.Introduced (events : List Event) : Prop where
  next : ∀ before after constituent, events = before ++ .entered constituent :: after →
    (∃ witness rest, after = .witnessed constituent witness :: rest) ∧
      ∀ witness, .witnessed constituent witness ∉ before
  earlier : ∀ before after constituent witness,
    events = before ++ .witnessed constituent witness :: after → .entered constituent ∈ before

theorem append_eq_append_cons {α : Type} {first second before after : List α} {item : α}
    (h : first ++ second = before ++ item :: after) :
    (∃ rest, first = before ++ item :: rest ∧ after = rest ++ second) ∨
      ∃ middle, before = first ++ middle ∧ second = middle ++ item :: after := by
  rcases List.append_eq_append_iff.mp h with ⟨middle, hbefore, hsecond⟩ | ⟨middle, hfirst, hafter⟩
  · exact .inr ⟨middle, hbefore, hsecond⟩
  · cases middle with
    | nil => exact .inr ⟨[], by simpa using hfirst.symm, hafter.symm⟩
    | cons other rest =>
        cases hafter
        exact .inl ⟨rest, hfirst, rfl⟩

namespace Event.Introduced

variable {events : List Event}

theorem entered_of_witnessed (h : Introduced events) {constituent : Constituent}
    {witness : Witness} (hmem : .witnessed constituent witness ∈ events) :
    .entered constituent ∈ events := by
  obtain ⟨before, after, hevents⟩ := List.append_of_mem hmem
  have hentered := h.earlier before after constituent witness hevents
  rw [hevents]
  exact List.mem_append_left _ hentered

theorem append (h : Introduced events) {told : List Event}
    (hnext : ∀ middle after constituent, told = middle ++ .entered constituent :: after →
      (∃ witness rest, after = .witnessed constituent witness :: rest) ∧
        ∀ witness, .witnessed constituent witness ∉ events ++ middle)
    (hearlier : ∀ middle after constituent witness,
      told = middle ++ .witnessed constituent witness :: after →
        .entered constituent ∈ events ++ middle) :
    Introduced (events ++ told) where
  next before after constituent heq := by
    rcases append_eq_append_cons heq with ⟨rest, hevents, rfl⟩ | ⟨middle, rfl, htold⟩
    · obtain ⟨⟨witness, rest, rfl⟩, hfirst⟩ := h.next before rest constituent hevents
      exact ⟨⟨witness, rest ++ told, rfl⟩, hfirst⟩
    · exact hnext middle after constituent htold
  earlier before after constituent witness heq := by
    rcases append_eq_append_cons heq with ⟨rest, hevents, -⟩ | ⟨middle, rfl, htold⟩
    · exact h.earlier before rest constituent witness hevents
    · exact hearlier middle after constituent witness htold

theorem append_unknown (h : Introduced events) (position : Nat) (token : String) :
    Introduced (events ++ [.unknown position token]) := by
  apply h.append
  · intro middle after constituent htold
    simp [List.singleton_eq_append_iff] at htold
  · intro middle after constituent witness htold
    simp [List.singleton_eq_append_iff] at htold

theorem append_arrival (h : Introduced events) {absent : Bool} {constituent : Constituent}
    (habsent : absent = true ↔ .entered constituent ∉ events) (witness : Witness) :
    Introduced (events ++ Event.arrival absent constituent witness) := by
  cases absent with
  | false =>
      have hentered : .entered constituent ∈ events := by simpa using habsent
      apply h.append
      · intro middle after other htold
        simp [List.singleton_eq_append_iff] at htold
      · intro middle after other found htold
        cases middle with
        | nil =>
            cases htold
            simpa using hentered
        | cons first middle => simp at htold
  | true =>
      have hfresh : ∀ found, .witnessed constituent found ∉ events := by
        intro found hmem
        exact habsent.mp rfl (h.entered_of_witnessed hmem)
      apply h.append
      · intro middle after other htold
        cases middle with
        | nil =>
            cases htold
            exact ⟨⟨witness, [], rfl⟩, by simpa using hfresh⟩
        | cons first middle => simp [List.singleton_eq_append_iff] at htold
      · intro middle after other found htold
        cases middle with
        | nil => cases htold
        | cons first middle =>
            cases middle with
            | nil =>
                cases htold
                simp
            | cons second middle => simp at htold

end Event.Introduced

theorem Event.eq_of_entered_mem_arrival {absent : Bool} {constituent other : Constituent}
    {witness : Witness} (h : .entered other ∈ Event.arrival absent constituent witness) :
    other = constituent := by
  cases absent with
  | false => simp at h
  | true => simpa using h

/-! ## Doing it again -/

/-- Does to a chart and to evidence what an event tells of. -/
def Event.replay (state : Chart × Evidence) : Event → Except Fault (Chart × Evidence)
  | .entered constituent => do
      let (_, chart) ← state.1.insert constituent
      return (chart, state.2)
  | .witnessed constituent witness => do
      let evidence ← state.2.record constituent witness
      return (state.1, evidence)
  | .unknown .. => .ok state

theorem Event.replay_witnessed {evidence : Evidence}
    (hcount : evidence.numWitnesses + 1 < Word.limit) (chart : Chart) (constituent : Constituent)
    (witness : Witness) :
    Event.replay (chart, evidence) (.witnessed constituent witness) =
      .ok (chart, evidence.recorded constituent witness) :=
  bind_eq_ok.mpr ⟨_, Evidence.record_eq_ok_iff.mpr ⟨hcount, rfl⟩, rfl⟩

theorem Chart.eq_of_insert_false {chart next : Chart} {constituent : Constituent}
    (h : chart.insert constituent = .ok (false, next)) : next = chart := by
  obtain ⟨position, -, h⟩ := bind_eq_ok.mp h
  split at h <;> cases h
  rfl

theorem Event.foldlM_replay_arrival {chart next : Chart} {evidence : Evidence} {absent : Bool}
    {constituent : Constituent} (hinsert : chart.insert constituent = .ok (absent, next))
    (hcount : evidence.numWitnesses + 1 < Word.limit) (witness : Witness) :
    (Event.arrival absent constituent witness).foldlM Event.replay (chart, evidence) =
      .ok (next, evidence.recorded constituent witness) := by
  have hwitnessed := Event.replay_witnessed hcount next constituent witness
  cases absent with
  | false =>
      rw [← Chart.eq_of_insert_false hinsert]
      exact bind_eq_ok.mpr ⟨_, hwitnessed, rfl⟩
  | true =>
      have hentered :
          Event.replay (chart, evidence) (.entered constituent) = .ok (next, evidence) :=
        bind_eq_ok.mpr ⟨_, hinsert, rfl⟩
      exact bind_eq_ok.mpr ⟨_, hentered, bind_eq_ok.mpr ⟨_, hwitnessed, rfl⟩⟩

def Event.diagnostic? : Event → Option Diagnostic
  | .unknown position token => some (.unknownToken position token)
  | .entered _ | .witnessed .. => none

/-- The events so far tell of everything in the filling, which began with a blank chart. -/
structure Transcript (blank : Chart) (filling : Filling) (events : List Event) : Prop where
  numTokens_eq : filling.chart.numTokens = blank.numTokens
  numSymbols_eq : filling.chart.numSymbols = blank.numSymbols
  fits : filling.chart.Fits
  replay_eq : events.foldlM Event.replay (blank, ∅) = .ok (filling.chart, filling.evidence)
  count_entered : ∀ constituent : Constituent, constituent.span.Within blank.numTokens →
    events.count (.entered constituent) = (filling.chart.holds constituent).toNat
  within_of_entered : ∀ constituent, .entered constituent ∈ events →
    constituent.span.Within blank.numTokens
  introduced : Event.Introduced events
  diagnostics_eq : events.filterMap Event.diagnostic? = filling.diagnostics

namespace Transcript

variable {blank : Chart} {filling : Filling} {events : List Event}

theorem start (hfits : blank.Fits) (hblank : ∀ constituent, blank.holds constituent = false) :
    Transcript blank (.ofChart blank) [] where
  numTokens_eq := rfl
  numSymbols_eq := rfl
  fits := hfits
  replay_eq := rfl
  count_entered constituent _ := by simp [Filling.ofChart, hblank]
  within_of_entered constituent h := by simp at h
  introduced := ⟨by simp, by simp⟩
  diagnostics_eq := rfl

theorem tally (h : Transcript blank filling events) (stats : Stats) :
    Transcript blank { filling with stats } events :=
  ⟨h.numTokens_eq, h.numSymbols_eq, h.fits, h.replay_eq, h.count_entered, h.within_of_entered,
    h.introduced, h.diagnostics_eq⟩

theorem report (h : Transcript blank filling events) (position : Nat) (token : String) :
    Transcript blank
      { filling with diagnostics := filling.diagnostics ++ [.unknownToken position token] }
      (events ++ [.unknown position token]) where
  numTokens_eq := h.numTokens_eq
  numSymbols_eq := h.numSymbols_eq
  fits := h.fits
  replay_eq := by
    rw [List.foldlM_append, h.replay_eq]
    rfl
  count_entered constituent hspan := by
    simpa using h.count_entered constituent hspan
  within_of_entered constituent hmem := by
    apply h.within_of_entered constituent
    simpa using hmem
  introduced := h.introduced.append_unknown position token
  diagnostics_eq := by simp [Event.diagnostic?, h.diagnostics_eq]

theorem entered_mem_iff (h : Transcript blank filling events) {constituent : Constituent}
    (hspan : constituent.span.Within blank.numTokens) :
    .entered constituent ∈ events ↔ filling.chart.holds constituent = true := by
  rw [← List.count_pos_iff, h.count_entered constituent hspan]
  cases filling.chart.holds constituent <;> simp

theorem add (h : Transcript blank filling events) {constituent : Constituent}
    (hspan : constituent.span.Within blank.numTokens) (witness : Witness) (stats : Stats)
    {raised : Std.TreeSet Nat} (hcount : filling.evidence.numWitnesses + 1 < Word.limit)
    (hinsert : filling.chart.insert constituent =
      .ok (!filling.chart.holds constituent, { filling.chart with raised }))
    (hholds : ∀ other : Constituent, other.span.HasRow filling.chart.numTokens →
      Chart.holds { filling.chart with raised } other =
        (decide (other = constituent) || filling.chart.holds other)) :
    Transcript blank
      ⟨{ filling.chart with raised }, filling.evidence.recorded constituent witness, stats,
        filling.diagnostics⟩
      (events ++ Event.arrival (!filling.chart.holds constituent) constituent witness) where
  numTokens_eq := h.numTokens_eq
  numSymbols_eq := h.numSymbols_eq
  fits := ⟨h.fits.rows_lt, h.fits.size_lt⟩
  replay_eq := by
    rw [List.foldlM_append, h.replay_eq]
    exact Event.foldlM_replay_arrival hinsert hcount witness
  count_entered other hother := by
    have hbefore := h.count_entered other hother
    rw [← h.numTokens_eq] at hother
    rw [List.count_append, hbefore, hholds other hother.hasRow]
    by_cases heq : other = constituent
    · subst heq
      cases filling.chart.holds other <;> simp
    · cases filling.chart.holds constituent <;> simp [heq, Ne.symm heq]
  within_of_entered other hmem := by
    rcases List.mem_append.mp hmem with hmem | hmem
    · exact h.within_of_entered other hmem
    · rw [Event.eq_of_entered_mem_arrival hmem]
      exact hspan
  introduced := by
    apply h.introduced.append_arrival
    rw [h.entered_mem_iff hspan]
    simp
  diagnostics_eq := by
    rw [List.filterMap_append, h.diagnostics_eq]
    cases filling.chart.holds constituent <;> simp [Event.diagnostic?]

end Transcript

/-! ## The run -/

theorem Event.place_of_mem_arrival {absent : Bool} {constituent : Constituent}
    {witness : Witness} {event : Event}
    (h : event ∈ Event.arrival absent constituent witness) :
    event.place = constituent.span.place := by
  cases absent with
  | false =>
      rw [List.mem_singleton.mp h]
      rfl
  | true =>
      rcases List.mem_pair.mp h with rfl | rfl
      · rfl
      · rfl

section Run

variable {blank : Chart} {filling : Filling} {events : Array Event} {action : Action}

theorem Transcript.perform_meets (h : Transcript blank filling events.toList)
    (hfits : action.Fits blank.numTokens blank.numSymbols) :
    Meets (fun _ => True)
      (fun next => Transcript blank next.filling next.state.toList ∧
        ∃ told, next.state.toList = events.toList ++ told ∧
          ∀ event ∈ told, event.place = action.place)
      (Progress.perform .recorder ⟨filling, events⟩ action) := by
  cases action with
  | tally span combinations =>
      apply (checked_meets fun _ => trivial).bind
      intro combinations _
      exact ⟨h.tally _, [], by simp, by simp⟩
  | report position token =>
      rw [Progress.perform, Progress.addUnknown_eq, Observer.hear_recorder]
      exact ⟨by simpa using h.report position token, [.unknown position token], by simp,
        by simp [Event.place, Action.place]⟩
  | add constituent witness =>
      rcases hfits with ⟨hspan, hsymbol⟩
      have hwithin := hspan
      rw [← h.numTokens_eq] at hwithin
      rw [← h.numSymbols_eq] at hsymbol
      obtain ⟨raised, hinsert, hholds⟩ := Chart.insert_eq h.fits hwithin.hasRow hsymbol
      cases hadd : Progress.add .recorder ⟨filling, events⟩ constituent witness with
      | error fault =>
          rw [Progress.perform, hadd]
          trivial
      | ok next =>
          rw [Progress.perform, hadd]
          obtain ⟨absent, chart, hinserted, hheard, hcount, -, hnext⟩ := Progress.add_eq_ok hadd
          cases hinsert.symm.trans hinserted
          rw [Observer.hear_recorder, Except.ok.injEq] at hheard
          refine ⟨?_, Event.arrival (!filling.chart.holds constituent) constituent witness,
            by simp [← hheard], ?_⟩
          · rw [hnext, ← hheard]
            simpa using h.add hspan witness _ hcount hinsert hholds
          intro event hevent
          exact Event.place_of_mem_arrival hevent

theorem Transcript.foldlM_perform_meets {actions : List Action}
    (h : Transcript blank filling [])
    (hfits : ∀ action ∈ actions, action.Fits blank.numTokens blank.numSymbols)
    (hordered : actions.Pairwise fun first second => first.place ≤ second.place) :
    Meets (fun _ => True)
      (fun next => Transcript blank next.filling next.state.toList ∧
        next.state.toList.Pairwise fun first second => first.place ≤ second.place)
      (actions.foldlM (Progress.perform .recorder) ⟨filling, #[]⟩) := by
  -- The places of the events so far are places of actions that are done.
  refine (Meets.foldlM (fun done (next : Progress (Array Event)) =>
    Transcript blank next.filling next.state.toList ∧
      (next.state.toList.Pairwise fun first second => first.place ≤ second.place) ∧
      ∀ event ∈ next.state.toList, ∃ action ∈ done, event.place = action.place) ?_ ?_).mono ?_
  · exact ⟨by simpa using h, by simp, by simp⟩
  · rintro done action rest ⟨filling, events⟩ hactions ⟨htranscript, hevents, hplaces⟩
    apply (htranscript.perform_meets (hfits action (by simp [hactions]))).mono
    rintro next ⟨hnext, told, htold, hplace⟩
    rw [hactions, List.pairwise_append] at hordered
    refine ⟨hnext, ?_, ?_⟩
    · rw [htold, List.pairwise_append]
      refine ⟨hevents, ?_, ?_⟩
      · apply List.pairwise_of_forall_mem_list
        intro first hfirst second hsecond
        rw [hplace first hfirst, hplace second hsecond]
      · intro first hfirst second hsecond
        obtain ⟨earlier, hearlier, hfirst⟩ := hplaces first hfirst
        rw [hfirst, hplace second hsecond]
        exact hordered.2.2 earlier hearlier action (by simp)
    · intro event hevent
      rw [htold, List.mem_append] at hevent
      rcases hevent with hevent | hevent
      · obtain ⟨earlier, hearlier, heq⟩ := hplaces event hevent
        exact ⟨earlier, by simp [hearlier], heq⟩
      · exact ⟨action, by simp, hplace event hevent⟩
  · rintro next ⟨hnext, hevents, -⟩
    exact ⟨hnext, hevents⟩

end Run

/-! ## One run after another -/

namespace Grammar

/-- The events tell how the filling came about, and it would be the same if nobody listened. -/
structure Recounts (grammar : Grammar) (tokens : List String) (filling : Filling)
    (events : List Event) : Prop where
  replay_eq : ∃ blank, Chart.blank tokens.length grammar.numSymbols = .ok blank ∧
    events.foldlM Event.replay (blank, ∅) = .ok (filling.chart, filling.evidence)
  entered_once : ∀ constituent : Constituent, constituent.span.Within tokens.length →
    filling.chart.contains constituent = .ok true → events.count (.entered constituent) = 1
  contains_of_entered : ∀ constituent, .entered constituent ∈ events →
    constituent.span.Within tokens.length ∧ filling.chart.contains constituent = .ok true
  introduced : Event.Introduced events
  ordered : events.Pairwise fun first second => first.place ≤ second.place
  diagnostics_eq : events.filterMap Event.diagnostic? = filling.diagnostics
  fill_eq : ∀ {σ : Type} (observer : Observer σ) (state : σ),
    grammar.fill observer state tokens =
      observer.hear state events >>= fun state =>
        Progress.mk filling <$> observer.close state filling.completion

section Recounts

variable {grammar : Grammar} {rules : List Production}

theorem recounts_of_fill (hgrammar : grammar.Indexes (headLabels rules) rules)
    {tokens : List String} {filling : Filling} {events : Array Event}
    (hfill : grammar.fill .recorder #[] tokens = .ok ⟨filling, events⟩) :
    grammar.Recounts tokens filling events.toList := by
  obtain ⟨known, hknown⟩ := grammar.exists_known tokens
  obtain ⟨blank, hblank, hactions⟩ := perform_of_fill hgrammar hknown hfill
  have hstart : Meets (fun _ => True) _ (Chart.blank tokens.length grammar.numSymbols) :=
    Chart.blank_meets (fun _ => trivial) hgrammar.numSymbols_lt (fun _ => trivial)
  obtain ⟨hfits, hnumTokens, hnumSymbols, hempty⟩ := hstart.of_eq_ok hblank
  have hactionsFit : ∀ action ∈ grammar.actions known tokens,
      action.Fits blank.numTokens blank.numSymbols := by
    intro action haction
    rw [hnumTokens, hnumSymbols]
    exact fits_of_mem_actions hgrammar known haction
  obtain ⟨htranscript, hordered⟩ := (Transcript.foldlM_perform_meets (.start hfits hempty)
    hactionsFit (grammar.pairwise_actions known tokens)).of_eq_ok hactions
  have hcontains : ∀ constituent : Constituent, constituent.span.Within blank.numTokens →
      filling.chart.contains constituent = .ok (filling.chart.holds constituent) := by
    intro constituent hspan
    rw [← htranscript.numTokens_eq] at hspan
    exact Chart.contains_eq htranscript.fits hspan.hasRow
  refine ⟨⟨blank, hblank, htranscript.replay_eq⟩, ?_, ?_, htranscript.introduced, hordered,
    htranscript.diagnostics_eq, fun observer state => fill_eq_hear hfill observer state⟩
  · intro constituent hspan htrue
    rw [← hnumTokens] at hspan
    rw [hcontains constituent hspan, Except.ok.injEq] at htrue
    rw [htranscript.count_entered constituent hspan, htrue, Bool.toNat_true]
  · intro constituent hentered
    have hspan := htranscript.within_of_entered constituent hentered
    have hholds := (htranscript.entered_mem_iff hspan).mp hentered
    rw [hcontains constituent hspan, hholds, ← hnumTokens]
    exact ⟨hspan, rfl⟩

theorem fill_recorder_of_fill {σ : Type} {observer : Observer σ} {state : σ}
    {progress : Progress σ} {tokens : List String}
    (hfill : grammar.fill observer state tokens = .ok progress) (before : Array Event) :
    ∃ events, grammar.fill .recorder #[] tokens = .ok ⟨progress.filling, events⟩ ∧
      grammar.fill .recorder before tokens = .ok ⟨progress.filling, before ++ events⟩ := by
  obtain ⟨events, hrecorded⟩ := recorded_of_fill hfill
  refine ⟨events, hrecorded, ?_⟩
  rw [fill_eq_hear hrecorded, Observer.hear_recorder, Array.toArray_toList]
  rfl

theorem exists_fillAll (hgrammar : grammar.Indexes (headLabels rules) rules)
    {inputs : List (List String)} (hadmits : ∀ tokens ∈ inputs, grammar.Admits tokens.length)
    (start : Array Event) :
    ∃ result, grammar.fillAll .recorder start inputs = .ok result := by
  induction inputs generalizing start with
  | nil => exact ⟨([], start), rfl⟩
  | cons tokens inputs ih =>
      obtain ⟨silent, hsilent⟩ := exists_fill_silent hgrammar (hadmits tokens (by simp)) ()
      obtain ⟨events, -, hfill⟩ := fill_recorder_of_fill hsilent start
      obtain ⟨⟨fillings, last⟩, hrest⟩ :=
        ih (fun other hother => hadmits other (by simp [hother])) (start ++ events)
      refine ⟨(silent.filling :: fillings, last), ?_⟩
      simp only [fillAll, hfill, bind, Except.bind, hrest]
      rfl

theorem segments_of_fillAll (hgrammar : grammar.Indexes (headLabels rules) rules)
    {inputs : List (List String)} {start : Array Event} {fillings : List Filling}
    {events : Array Event}
    (hfill : grammar.fillAll .recorder start inputs = .ok (fillings, events)) :
    ∃ builds : List (Filling × List Event), fillings = builds.map Prod.fst ∧
      events.toList = start.toList ++ builds.flatMap Prod.snd ∧
      List.Forall₂ (fun tokens build => grammar.Recounts tokens build.1 build.2) inputs
        builds := by
  induction inputs generalizing start fillings with
  | nil =>
      cases hfill
      exact ⟨[], rfl, by simp, .nil⟩
  | cons tokens inputs ih =>
      obtain ⟨⟨filling, state⟩, hfirst, hrest⟩ := bind_eq_ok.mp hfill
      obtain ⟨⟨fillings, last⟩, hlater, hresult⟩ := bind_eq_ok.mp hrest
      cases hresult
      obtain ⟨told, hrecorded, hcontinued⟩ := fill_recorder_of_fill hfirst start
      cases hfirst.symm.trans hcontinued
      obtain ⟨builds, hfillings, hevents, hbuilds⟩ := ih hlater
      refine ⟨(filling, told.toList) :: builds, by simp [hfillings], ?_,
        .cons (recounts_of_fill hgrammar hrecorded) hbuilds⟩
      simp [hevents]

end Recounts

/--
Inputs of admitted sizes are filled in turn.  Whenever inputs are, under a recorder that may have
events already, the record is continued by one segment for each of them, which recounts its
filling.  A filling made under any other observer is recounted by such a segment as well.
-/
theorem fillAll_recounts {rules : List Production} {compilation : Compilation}
    (hcompile : compile rules = .ok compilation) (start : Array Event)
    (inputs : List (List String)) :
    ((∀ tokens ∈ inputs, compilation.grammar.Admits tokens.length) →
      ∃ result, compilation.grammar.fillAll .recorder start inputs = .ok result) ∧
    (∀ fillings events,
      compilation.grammar.fillAll .recorder start inputs = .ok (fillings, events) →
      ∃ builds : List (Filling × List Event), fillings = builds.map Prod.fst ∧
        events.toList = start.toList ++ builds.flatMap Prod.snd ∧
        List.Forall₂ (fun tokens build => compilation.grammar.Recounts tokens build.1 build.2)
          inputs builds) ∧
    ∀ (σ : Type) (observer : Observer σ) (state : σ) (tokens : List String)
      (progress : Progress σ), compilation.grammar.fill observer state tokens = .ok progress →
      ∃ events, compilation.grammar.Recounts tokens progress.filling events := by
  have hgrammar := indexes_of_compile hcompile
  refine ⟨?_, ?_, ?_⟩
  · intro hadmits
    exact exists_fillAll hgrammar hadmits start
  · intro fillings events hfill
    exact segments_of_fillAll hgrammar hfill
  · intro σ observer state tokens progress hfill
    obtain ⟨events, hrecorded⟩ := recorded_of_fill hfill
    exact ⟨events.toList, recounts_of_fill hgrammar hrecorded⟩

theorem fillAll_doubling_recounts :
    ∃ compilation fillings events builds, compile doubling = .ok compilation ∧
      compilation.grammar.fillAll .recorder #[] [["a", "a", "a"], [], ["a", "b"]] =
        .ok (fillings, events) ∧
      fillings = builds.map Prod.fst ∧ events.toList = builds.flatMap Prod.snd ∧
      List.Forall₂ (fun tokens build => compilation.grammar.Recounts tokens build.1 build.2)
        [["a", "a", "a"], [], ["a", "b"]] builds := by
  have hsizes : (compile doubling).toOption.map (fun compilation =>
      decide (compilation.grammar.Admits 3 ∧ compilation.grammar.Admits 0 ∧
        compilation.grammar.Admits 2)) = some true := by
    decide +kernel
  cases hcompile : compile doubling with
  | error fault =>
      rw [hcompile] at hsizes
      cases hsizes
  | ok compilation =>
      rw [hcompile] at hsizes
      have hadmits := of_decide_eq_true (Option.some.inj hsizes)
      obtain ⟨htotal, hsegments, -⟩ :=
        fillAll_recounts hcompile #[] [["a", "a", "a"], [], ["a", "b"]]
      obtain ⟨⟨fillings, events⟩, hfill⟩ := htotal (by simpa using hadmits)
      obtain ⟨builds, hfillings, hevents, hbuilds⟩ := hsegments fillings events hfill
      exact ⟨compilation, fillings, events, builds, rfl, hfill, hfillings, by simpa using hevents,
        hbuilds⟩

end Grammar

end ChartParsing
