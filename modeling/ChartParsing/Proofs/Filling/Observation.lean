import ChartParsing.Filling
import ChartParsing.Proofs.Evidence

/-!
# Observers only listen

A run does one thing after another to a filling and tells its observer.  What
it does, and so what it tells, never depends on the observer, which can only
stop it.  A run under any observer can therefore be had from a recorded one:
the filling is the same, and the observer hears the recorded events.
-/

namespace ChartParsing

open Outcome

variable {σ : Type}

/-! ## Listening to a record -/

def Observer.hear (observer : Observer σ) (state : σ) (events : List Event) : Except Fault σ :=
  events.foldlM observer.notify state

theorem Observer.hear_append (observer : Observer σ) (state : σ) (first second : List Event) :
    observer.hear state (first ++ second) =
      observer.hear state first >>= fun state => observer.hear state second :=
  List.foldlM_append

theorem Observer.hear_recorder (events : Array Event) (told : List Event) :
    Observer.recorder.hear events told = .ok (events ++ told.toArray) := by
  induction told generalizing events with
  | nil => simp [hear, pure, Except.pure]
  | cons event told ih =>
      rw [hear, List.foldlM_cons]
      change Observer.recorder.hear (events.push event) told = _
      rw [ih]
      simp

theorem Observer.hear_silent (state : σ) (events : List Event) :
    Observer.silent.hear state events = .ok state := by
  induction events with
  | nil => rfl
  | cons event events ih => exact ih

def Event.entrance (absent : Bool) (constituent : Constituent) : List Event :=
  if absent then [.entered constituent] else []

def Event.arrival (absent : Bool) (constituent : Constituent) (witness : Witness) : List Event :=
  Event.entrance absent constituent ++ [.witnessed constituent witness]

@[simp] theorem Event.entrance_false (constituent : Constituent) :
    Event.entrance false constituent = [] := rfl

@[simp] theorem Event.entrance_true (constituent : Constituent) :
    Event.entrance true constituent = [.entered constituent] := rfl

@[simp] theorem Event.arrival_false (constituent : Constituent) (witness : Witness) :
    Event.arrival false constituent witness = [.witnessed constituent witness] := rfl

@[simp] theorem Event.arrival_true (constituent : Constituent) (witness : Witness) :
    Event.arrival true constituent witness =
      [.entered constituent, .witnessed constituent witness] := rfl

theorem Progress.add_eq (observer : Observer σ) (filling : Filling) (state : σ)
    (constituent : Constituent) (witness : Witness) :
    Progress.add observer ⟨filling, state⟩ constituent witness =
      filling.chart.insert constituent >>= fun (absent, chart) =>
        observer.hear state (Event.entrance absent constituent) >>= fun state =>
          filling.evidence.record constituent witness >>= fun evidence =>
            observer.hear state [.witnessed constituent witness] >>= fun state =>
              Word.checked (filling.stats.steps + 1) >>= fun steps =>
                pure ⟨⟨chart, evidence, { filling.stats with steps }, filling.diagnostics⟩,
                  state⟩ := by
  dsimp only [add]
  congr 1
  funext result
  rcases result with ⟨absent, chart⟩
  cases absent with
  | false => simp [Observer.hear]
  | true => simp [Observer.hear]

theorem Progress.add_eq_ok {observer : Observer σ} {progress next : Progress σ}
    {constituent : Constituent} {witness : Witness}
    (h : progress.add observer constituent witness = .ok next) :
    ∃ absent chart, progress.filling.chart.insert constituent = .ok (absent, chart) ∧
      observer.hear progress.state (Event.arrival absent constituent witness) = .ok next.state ∧
      progress.filling.evidence.numWitnesses + 1 < Word.limit ∧
      progress.filling.stats.steps + 1 < Word.limit ∧
      next.filling = ⟨chart, progress.filling.evidence.recorded constituent witness,
        { progress.filling.stats with steps := progress.filling.stats.steps + 1 },
        progress.filling.diagnostics⟩ := by
  rcases progress with ⟨filling, state⟩
  rw [add_eq] at h
  obtain ⟨⟨absent, chart⟩, hinsert, h⟩ := bind_eq_ok.mp h
  obtain ⟨entered, hentered, h⟩ := bind_eq_ok.mp h
  obtain ⟨evidence, hevidence, h⟩ := bind_eq_ok.mp h
  obtain ⟨witnessed, hwitnessed, h⟩ := bind_eq_ok.mp h
  obtain ⟨steps, hsteps, h⟩ := bind_eq_ok.mp h
  obtain ⟨hcount, rfl⟩ := Evidence.record_eq_ok_iff.mp hevidence
  obtain ⟨hlt, rfl⟩ := checked_eq_ok_iff.mp hsteps
  cases h
  refine ⟨absent, chart, hinsert, ?_, hcount, hlt, rfl⟩
  rw [Event.arrival, Observer.hear_append]
  exact bind_eq_ok.mpr ⟨entered, hentered, hwitnessed⟩

theorem Progress.addUnknown_eq (observer : Observer σ) (filling : Filling) (state : σ)
    (position : Nat) (token : String) :
    Progress.addUnknown observer ⟨filling, state⟩ position token =
      observer.hear state [.unknown position token] >>= fun state =>
        pure ⟨{ filling with
          diagnostics := filling.diagnostics ++ [.unknownToken position token] }, state⟩ := by
  simp [addUnknown, Observer.hear]

/--
The observed outcome is the recorded one: the same filling with what the observer makes of the
events recorded since `before`, or a fault if that is a fault.
-/
def Echoes (observer : Observer σ) (state : σ) (before : Array Event) :
    Except Fault (Progress (Array Event)) → Except Fault (Progress σ) → Prop
  | .ok ⟨filling, events⟩, observed => ∃ told, events.toList = before.toList ++ told ∧
      observed = Progress.mk filling <$> observer.hear state told
  | .error _, observed => ∃ fault, observed = .error fault

section Echoes

variable {observer : Observer σ} {state : σ} {before : Array Event}

theorem Echoes.lift {α : Type} {value : Except Fault α}
    {recorded : α → Except Fault (Progress (Array Event))}
    {observed : α → Except Fault (Progress σ)}
    (h : ∀ item, Echoes observer state before (recorded item) (observed item)) :
    Echoes observer state before (value >>= recorded) (value >>= observed) := by
  cases value with
  | error fault => exact ⟨fault, rfl⟩
  | ok item => exact h item

theorem Echoes.refl (filling : Filling) :
    Echoes observer state before (.ok ⟨filling, before⟩) (.ok ⟨filling, state⟩) :=
  ⟨[], by simp, rfl⟩

-- Before the next part of a run, the observer has to hear what is recorded already.
theorem Echoes.after {recorded : Except Fault (Progress (Array Event))}
    {observed : σ → Except Fault (Progress σ)} {events : Array Event} {told : List Event}
    (hevents : events.toList = before.toList ++ told)
    (hnext : ∀ state, Echoes observer state events recorded (observed state)) :
    Echoes observer state before recorded (observer.hear state told >>= observed) := by
  cases hheard : observer.hear state told with
  | error fault =>
      -- The observer stops here, and would stop at the same event in a longer record.
      cases recorded with
      | error other => exact ⟨fault, rfl⟩
      | ok final =>
          obtain ⟨more, hmore, -⟩ := hnext state
          refine ⟨told ++ more, by rw [hmore, hevents, List.append_assoc], ?_⟩
          rw [Observer.hear_append, hheard]
          rfl
  | ok heard =>
      cases recorded with
      | error other => exact hnext heard
      | ok final =>
          obtain ⟨more, hmore, hobserved⟩ := hnext heard
          refine ⟨told ++ more, by rw [hmore, hevents, List.append_assoc], ?_⟩
          rw [Observer.hear_append, hheard]
          exact hobserved

theorem Echoes.tell {recorded : Array Event → Except Fault (Progress (Array Event))}
    {observed : σ → Except Fault (Progress σ)} (told : List Event)
    (hnext : ∀ events state, Echoes observer state events (recorded events) (observed state)) :
    Echoes observer state before (Observer.recorder.hear before told >>= recorded)
      (observer.hear state told >>= observed) := by
  rw [Observer.hear_recorder]
  exact .after (by simp) (hnext _)

theorem Echoes.bind {recorded : Except Fault (Progress (Array Event))}
    {observed : Except Fault (Progress σ)}
    {recordedNext : Progress (Array Event) → Except Fault (Progress (Array Event))}
    {observedNext : Progress σ → Except Fault (Progress σ)}
    (hfirst : Echoes observer state before recorded observed)
    (hnext : ∀ filling events state, Echoes observer state events
      (recordedNext ⟨filling, events⟩) (observedNext ⟨filling, state⟩)) :
    Echoes observer state before (recorded >>= recordedNext) (observed >>= observedNext) := by
  cases recorded with
  | error fault =>
      obtain ⟨other, rfl⟩ := hfirst
      exact ⟨other, rfl⟩
  | ok progress =>
      rcases progress with ⟨filling, events⟩
      obtain ⟨told, hevents, rfl⟩ := hfirst
      rw [map_eq_pure_bind, bind_assoc]
      exact .after hevents fun state => hnext filling events state

theorem Echoes.foldlM {ι : Type}
    {recordedStep : Progress (Array Event) → ι → Except Fault (Progress (Array Event))}
    {observedStep : Progress σ → ι → Except Fault (Progress σ)}
    (hstep : ∀ item filling events state, Echoes observer state events
      (recordedStep ⟨filling, events⟩ item) (observedStep ⟨filling, state⟩ item))
    (items : List ι) (filling : Filling) :
    Echoes observer state before (items.foldlM recordedStep ⟨filling, before⟩)
      (items.foldlM observedStep ⟨filling, state⟩) := by
  induction items generalizing state before filling with
  | nil => exact .refl filling
  | cons item items ih =>
      rw [List.foldlM_cons, List.foldlM_cons]
      exact .bind (hstep item filling before state) fun filling events state => ih filling

end Echoes

/-! ## The run -/

section Run

variable (observer : Observer σ) (state : σ) (before : Array Event) (filling : Filling)

theorem Progress.add_echoes (constituent : Constituent) (witness : Witness) :
    Echoes observer state before (Progress.add .recorder ⟨filling, before⟩ constituent witness)
      (Progress.add observer ⟨filling, state⟩ constituent witness) := by
  rw [add_eq, add_eq]
  exact .lift fun _ => .tell _ fun _ _ => .lift fun _ => .tell _ fun _ _ => .lift fun _ => .refl _

theorem Progress.addUnknown_echoes (position : Nat) (token : String) :
    Echoes observer state before (Progress.addUnknown .recorder ⟨filling, before⟩ position token)
      (Progress.addUnknown observer ⟨filling, state⟩ position token) := by
  rw [addUnknown_eq, addUnknown_eq]
  exact .tell _ fun _ _ => .refl _

theorem Progress.addFindings_echoes (findings : Findings) :
    Echoes observer state before (Progress.addFindings .recorder ⟨filling, before⟩ findings)
      (Progress.addFindings observer ⟨filling, state⟩ findings) := by
  refine .lift fun _ => .foldlM ?_ _ _
  intro entry filling before state
  exact add_echoes observer state before filling _ _

namespace Grammar

theorem addToken_echoes (grammar : Grammar) (token : String) (position : Nat) :
    Echoes observer state before (grammar.addToken .recorder ⟨filling, before⟩ token position)
      (grammar.addToken observer ⟨filling, state⟩ token position) := by
  refine .lift fun span => ?_
  cases grammar.analyse? token with
  | none => exact Progress.addUnknown_echoes observer state before filling position token
  | some analysis =>
      refine .foldlM ?_ _ _
      intro head filling before state
      exact Progress.add_echoes observer state before filling _ _

-- The search asks the chart alone, which is the same in both runs.
theorem addLayer_echoes (grammar : Grammar) (width : Nat) :
    Echoes observer state before (grammar.addLayer .recorder ⟨filling, before⟩ width)
      (grammar.addLayer observer ⟨filling, state⟩ width) := by
  refine .lift fun layer => .foldlM ?_ _ _
  intro findings filling before state
  exact Progress.addFindings_echoes observer state before filling findings

theorem fillTokens_echoes (grammar : Grammar) (tokens : List String) :
    Echoes observer state before (grammar.fillTokens .recorder before tokens)
      (grammar.fillTokens observer state tokens) := by
  refine .lift fun chart => .foldlM ?_ _ _
  intro item filling before state
  exact addToken_echoes observer state before filling grammar item.1 item.2

theorem fillBelow_echoes (grammar : Grammar) (tokens : List String) (width : Nat) :
    Echoes observer state before (grammar.fillBelow .recorder before tokens width)
      (grammar.fillBelow observer state tokens width) := by
  refine .bind (fillTokens_echoes observer state before grammar tokens) ?_
  intro filling before state
  refine .foldlM ?_ _ _
  intro width filling before state
  exact addLayer_echoes observer state before filling grammar width

theorem fill_eq_close (grammar : Grammar) (tokens : List String) :
    grammar.fill observer state tokens =
      grammar.fillBelow observer state tokens (tokens.length + 1) >>= fun progress =>
        Progress.mk progress.filling <$>
          observer.close progress.state progress.filling.completion := by
  simp [fill]

theorem fill_recorder (grammar : Grammar) (tokens : List String) :
    grammar.fill .recorder before tokens =
      grammar.fillBelow .recorder before tokens (tokens.length + 1) := by
  rw [fill_eq_close]
  cases grammar.fillBelow .recorder before tokens (tokens.length + 1) with
  | error fault => rfl
  | ok progress => rfl

theorem fill_echoes (grammar : Grammar) (tokens : List String) :
    Echoes observer state before (grammar.fill .recorder before tokens)
      (grammar.fillBelow observer state tokens (tokens.length + 1)) := by
  rw [fill_recorder]
  exact fillBelow_echoes observer state before grammar tokens _

end Grammar

end Run

namespace Grammar

variable {grammar : Grammar} {tokens : List String}

/-- A run under any observer, from a recorded one. -/
theorem fill_eq_hear {filling : Filling} {events : Array Event}
    (hrecorded : grammar.fill .recorder #[] tokens = .ok ⟨filling, events⟩)
    (observer : Observer σ) (state : σ) :
    grammar.fill observer state tokens =
      observer.hear state events.toList >>= fun state =>
        Progress.mk filling <$> observer.close state filling.completion := by
  have hechoes := fill_echoes observer state #[] grammar tokens
  rw [hrecorded] at hechoes
  obtain ⟨told, hevents, hbelow⟩ := hechoes
  have htold : told = events.toList := by simpa using hevents.symm
  rw [fill_eq_close, hbelow, htold]
  cases observer.hear state events.toList with
  | error fault => rfl
  | ok heard => rfl

theorem recorded_of_fill {observer : Observer σ} {state : σ} {progress : Progress σ}
    (hfill : grammar.fill observer state tokens = .ok progress) :
    ∃ events, grammar.fill .recorder #[] tokens = .ok ⟨progress.filling, events⟩ := by
  cases hrecorded : grammar.fill .recorder #[] tokens with
  | error fault =>
      have hechoes := fill_echoes observer state #[] grammar tokens
      rw [hrecorded] at hechoes
      obtain ⟨other, hbelow⟩ := hechoes
      rw [fill_eq_close, hbelow] at hfill
      cases hfill
  | ok recorded =>
      rw [fill_eq_hear hrecorded] at hfill
      obtain ⟨heard, -, hclose⟩ := bind_eq_ok.mp hfill
      refine ⟨recorded.state, ?_⟩
      cases hclosed : observer.close heard recorded.filling.completion with
      | error fault =>
          rw [hclosed] at hclose
          cases hclose
      | ok closed =>
          rw [hclosed] at hclose
          cases hclose
          rfl

theorem fill_silent_of_fill {observer : Observer σ} {state : σ} {progress : Progress σ}
    (hfill : grammar.fill observer state tokens = .ok progress) :
    grammar.fill .silent () tokens = .ok ⟨progress.filling, ()⟩ := by
  rcases recorded_of_fill hfill with ⟨events, hrecorded⟩
  rw [fill_eq_hear hrecorded, Observer.hear_silent]
  rfl

end Grammar

end ChartParsing
