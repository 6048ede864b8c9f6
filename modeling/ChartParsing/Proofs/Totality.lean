import ChartParsing.Proofs.Filling.Events
import ChartParsing.Proofs.Forest.Consistency
import ChartParsing.Proofs.Listing

/-!
# Nothing stops on the way

From productions to trees in brackets there are many places at which a
computation could stop with a fault: a label asked for a symbol that has none,
a flag outside the chart, a counter that leaves the machine word.  None of them
is reached, because every symbol that comes up is one of the grammar's, every
span one of the input's, and the sizes are bounded in advance.
-/

namespace ChartParsing

open Outcome

/-! ## Labels -/

namespace Grammar

section Labels

variable {grammar : Grammar} {rules : List Production} {tokens : List String}

theorem Indexes.label_of_symbol? (h : grammar.Indexes (headLabels rules) rules) {label : String}
    {symbol : Symbol} (hsymbol : grammar.symbol? label = some symbol) :
    grammar.label symbol = .ok label :=
  h.label_eq_ok_iff.mpr hsymbol

theorem Indexes.exists_label (h : grammar.Indexes (headLabels rules) rules) {symbol : Symbol}
    (hid : symbol.id < grammar.numSymbols) : ∃ label, grammar.label symbol = .ok label := by
  obtain ⟨label, -, hsymbol⟩ := h.symbols.exists_label hid
  exact ⟨label, h.label_of_symbol? hsymbol⟩

theorem Indexes.exists_listing (h : grammar.Indexes (headLabels rules) rules) :
    ∃ text, grammar.listing = .ok text :=
  ⟨_, h.listing_eq⟩

theorem Builds.exists_text (hgrammar : grammar.Indexes (headLabels rules) rules)
    {root : Constituent} {tree : Tree} (h : grammar.Builds tokens root tree) :
    ∃ text, tree.text grammar = .ok text := by
  induction h with
  | token htoken hterminal hhead =>
      obtain ⟨label, hlabel⟩ := hgrammar.exists_label (hgrammar.unaryHeads_id_lt hhead)
      simp only [Tree.text, Tree.textAll, hlabel, hgrammar.label_of_symbol? hterminal, bind,
        Except.bind]
      exact ⟨_, rfl⟩
  | pair hhead _ _ ihLeft ihRight =>
      obtain ⟨label, hlabel⟩ := hgrammar.exists_label (hgrammar.expands_id_lt hhead)
      obtain ⟨left, hleft⟩ := ihLeft
      obtain ⟨right, hright⟩ := ihRight
      simp only [Tree.branch, Tree.text, Tree.textAll, hlabel, hleft, hright, bind, Except.bind]
      exact ⟨_, rfl⟩

end Labels

end Grammar

/-! ## Observers -/

def Witness.symbols : Witness → List Symbol
  | .leaf terminal => [terminal]
  | .split _ left right => [left, right]

def Event.symbols : Event → List Symbol
  | .entered constituent => [constituent.symbol]
  | .witnessed constituent witness => constituent.symbol :: witness.symbols
  | .unknown .. => []

def Event.Concerns (grammar : Grammar) (event : Event) : Prop :=
  ∀ symbol ∈ event.symbols, symbol.id < grammar.numSymbols

/-- The observer stops at no event about symbols of the grammar. -/
structure Observer.Follows {σ : Type} (observer : Observer σ) (grammar : Grammar) : Prop where
  notify : ∀ state event, event.Concerns grammar →
    ∃ next, observer.notify state event = .ok next
  close : ∀ state completion, ∃ closed, observer.close state completion = .ok closed

section Observers

variable {σ : Type} {grammar : Grammar} {rules : List Production}

theorem Observer.silent_follows : (Observer.silent : Observer σ).Follows grammar :=
  ⟨fun state _ _ => ⟨state, rfl⟩, fun state _ => ⟨state, rfl⟩⟩

theorem Observer.recorder_follows : Observer.recorder.Follows grammar :=
  ⟨fun events event _ => ⟨events.push event, rfl⟩, fun events _ => ⟨events, rfl⟩⟩

theorem Observer.warnings_follows : Observer.warnings.Follows grammar :=
  ⟨fun _ _ _ => ⟨_, rfl⟩, fun _ _ => ⟨_, rfl⟩⟩

theorem Grammar.Indexes.exists_witnessText (h : grammar.Indexes (headLabels rules) rules)
    {constituent : Constituent} {witness : Witness}
    (hconcerns : (Event.witnessed constituent witness).Concerns grammar) :
    ∃ text, grammar.witnessText constituent witness = .ok text := by
  obtain ⟨head, hhead⟩ := h.exists_label (hconcerns constituent.symbol (by simp [Event.symbols]))
  cases witness with
  | leaf terminal =>
      obtain ⟨token, htoken⟩ :=
        h.exists_label (hconcerns terminal (by simp [Event.symbols, Witness.symbols]))
      simp only [witnessText, hhead, htoken, bind, Except.bind]
      exact ⟨_, rfl⟩
  | split position left right =>
      obtain ⟨leftLabel, hleft⟩ :=
        h.exists_label (hconcerns left (by simp [Event.symbols, Witness.symbols]))
      obtain ⟨rightLabel, hright⟩ :=
        h.exists_label (hconcerns right (by simp [Event.symbols, Witness.symbols]))
      simp only [witnessText, hhead, hleft, hright, bind, Except.bind]
      exact ⟨_, rfl⟩

theorem Grammar.Indexes.exists_eventText (h : grammar.Indexes (headLabels rules) rules)
    {event : Event} (hconcerns : event.Concerns grammar) :
    ∃ text, grammar.eventText event = .ok text := by
  cases event with
  | entered constituent =>
      obtain ⟨label, hlabel⟩ :=
        h.exists_label (hconcerns constituent.symbol (by simp [Event.symbols]))
      simp only [eventText, hlabel, bind, Except.bind]
      exact ⟨_, rfl⟩
  | witnessed constituent witness => exact h.exists_witnessText hconcerns
  | unknown position token => exact ⟨_, rfl⟩

theorem Observer.tracer_follows (h : grammar.Indexes (headLabels rules) rules) :
    (Observer.tracer grammar).Follows grammar where
  notify journal event hconcerns := by
    obtain ⟨text, htext⟩ := h.exists_eventText hconcerns
    simp only [tracer, htext, bind, Except.bind]
    exact ⟨_, rfl⟩
  close journal _ := ⟨journal, rfl⟩

theorem Observer.Follows.exists_hear {observer : Observer σ} (h : observer.Follows grammar)
    {events : List Event} (hevents : ∀ event ∈ events, event.Concerns grammar) (state : σ) :
    ∃ heard, observer.hear state events = .ok heard := by
  induction events generalizing state with
  | nil => exact ⟨state, rfl⟩
  | cons event events ih =>
      obtain ⟨next, hnext⟩ := h.notify state event (hevents event (by simp))
      obtain ⟨heard, hheard⟩ := ih (fun other hother => hevents other (by simp [hother])) next
      refine ⟨heard, ?_⟩
      rw [Observer.hear, List.foldlM_cons, hnext]
      exact hheard

end Observers

/-! ## What an observer hears -/

-- Nothing is ever removed from the evidence, so every witness told of is there in the end.
theorem Event.has_of_replay {events : List Event} {start final : Chart × Evidence}
    (h : events.foldlM Event.replay start = .ok final) {constituent : Constituent}
    {witness : Witness}
    (hwitness : start.2.Has constituent witness ∨ .witnessed constituent witness ∈ events) :
    final.2.Has constituent witness := by
  induction events generalizing start with
  | nil =>
      cases h
      simpa using hwitness
  | cons event events ih =>
      rw [List.foldlM_cons] at h
      obtain ⟨next, hnext, hrest⟩ := bind_eq_ok.mp h
      apply ih hrest
      cases event with
      | entered other =>
          obtain ⟨result, -, hresult⟩ := bind_eq_ok.mp hnext
          cases hresult
          simpa using hwitness
      | unknown position token =>
          cases hnext
          simpa using hwitness
      | witnessed other another =>
          obtain ⟨evidence, hrecord, hevidence⟩ := bind_eq_ok.mp hnext
          obtain ⟨-, rfl⟩ := Evidence.record_eq_ok_iff.mp hrecord
          cases hevidence
          rcases hwitness with hbefore | hmem
          · exact .inl (hbefore.recorded other another)
          · rcases List.mem_cons.mp hmem with heq | hmem
            · cases heq
              exact .inl (start.2.has_recorded constituent witness)
            · exact .inr hmem

namespace Grammar

section Hearing

variable {σ : Type} {grammar : Grammar} {rules : List Production} {tokens : List String}

theorem Backs.concerns (hgrammar : grammar.Indexes (headLabels rules) rules)
    {constituent : Constituent} {witness : Witness}
    (h : grammar.Backs tokens constituent witness) :
    (Event.witnessed constituent witness).Concerns grammar := by
  intro symbol hsymbol
  cases h with
  | leaf htoken hterminal hhead =>
      rcases List.mem_pair.mp hsymbol with rfl | rfl
      · exact hgrammar.unaryHeads_id_lt hhead
      · exact hgrammar.symbols.id_lt hterminal
  | split hhead hleft hright =>
      rcases List.mem_cons.mp hsymbol with rfl | hpart
      · exact hgrammar.expands_id_lt hhead
      · rcases List.mem_pair.mp hpart with rfl | rfl
        · exact hleft.id_lt hgrammar
        · exact hright.id_lt hgrammar

theorem concerns_of_fill (hgrammar : grammar.Indexes (headLabels rules) rules)
    {filling : Filling} {events : Array Event}
    (hfill : grammar.fill .recorder #[] tokens = .ok ⟨filling, events⟩) :
    ∀ event ∈ events.toList, event.Concerns grammar := by
  have hrecounts := recounts_of_fill hgrammar hfill
  have hyields : ∀ constituent, .entered constituent ∈ events.toList →
      grammar.Yields tokens constituent := by
    intro constituent hentered
    obtain ⟨hspan, htrue⟩ := hrecounts.contains_of_entered constituent hentered
    obtain ⟨answer, hcontains, hanswer⟩ := contains_of_fill hgrammar hfill constituent hspan
    cases hcontains.symm.trans htrue
    exact hanswer.mp rfl
  intro event hevent
  cases event with
  | entered constituent =>
      intro symbol hsymbol
      rw [List.mem_singleton.mp hsymbol]
      exact (hyields constituent hevent).id_lt hgrammar
  | witnessed constituent witness =>
      obtain ⟨known, hknown⟩ := grammar.exists_known tokens
      obtain ⟨blank, -, hreplay⟩ := hrecounts.replay_eq
      obtain ⟨witnesses, hget, hmem⟩ := Event.has_of_replay hreplay (.inr hevent)
      have hentered := hrecounts.introduced.entered_of_witnessed hevent
      cases hget.symm.trans (get?_of_fill hgrammar hknown hfill (hyields constituent hentered))
      exact ((mem_witnesses_iff hgrammar hknown).mp hmem).concerns hgrammar
  | unknown position token => nofun

theorem fill_of_follows (hgrammar : grammar.Indexes (headLabels rules) rules)
    {silent : Progress Unit} (hsilent : grammar.fill .silent () tokens = .ok silent)
    {observer : Observer σ} (hfollows : observer.Follows grammar) (state : σ) :
    ∃ progress, grammar.fill observer state tokens = .ok progress := by
  obtain ⟨events, hrecorded⟩ := recorded_of_fill hsilent
  obtain ⟨heard, hheard⟩ := hfollows.exists_hear (concerns_of_fill hgrammar hrecorded) state
  obtain ⟨closed, hclosed⟩ := hfollows.close heard silent.filling.completion
  refine ⟨⟨silent.filling, closed⟩, ?_⟩
  rw [fill_eq_hear hrecorded, hheard]
  simp only [bind, Except.bind, hclosed]
  rfl

/-- Under this observer the chart is filled, and the trees can be read and written down. -/
structure Completes (grammar : Grammar) (observer : Observer σ) (state : σ)
    (tokens : List String) : Prop where
  fill : ∃ progress, grammar.fill observer state tokens = .ok progress
  parse : ∀ start limits, ∃ outcome,
    Parser.parse ⟨grammar, start, limits⟩ observer state tokens = .ok outcome ∧
      ∀ tree ∈ outcome.forest.trees, ∃ text, tree.text grammar = .ok text

theorem completes_of_follows (hgrammar : grammar.Indexes (headLabels rules) rules)
    (hadmits : grammar.Admits tokens.length) {observer : Observer σ}
    (hfollows : observer.Follows grammar) (state : σ) :
    grammar.Completes observer state tokens := by
  obtain ⟨silent, hsilent⟩ := exists_fill_silent hgrammar hadmits ()
  obtain ⟨progress, hfill⟩ := fill_of_follows hgrammar hsilent hfollows state
  refine ⟨⟨progress, hfill⟩, fun start limits => ?_⟩
  obtain ⟨outcome, hparse, hbuilds⟩ :=
    Parser.parse_of_fill ⟨grammar, start, limits⟩ hgrammar hfill
  refine ⟨outcome, hparse, ?_⟩
  intro tree htree
  obtain ⟨root, htree⟩ := hbuilds tree htree
  exact htree.exists_text hgrammar

end Hearing

end Grammar

/--
As long as there are symbols for the labels, productions in a number that is a machine word compile
and the grammar is listed; and an input of an admitted size is recognised, and completed under each
kind of observer.
-/
theorem everything_completes (rules : List Production) (hrules : rules.length < Word.limit)
    (hlabels : (vocabulary (headLabels rules) rules).eraseDups.length < Symbol.limit) :
    ∃ compilation, Grammar.compile rules = .ok compilation ∧
      (∃ text, compilation.grammar.listing = .ok text) ∧
      ∀ tokens : List String, compilation.grammar.Admits tokens.length →
        (∀ start limits, ∃ recognition,
          Parser.recognize ⟨compilation.grammar, start, limits⟩ tokens = .ok recognition) ∧
        compilation.grammar.Completes .silent () tokens ∧
        (∀ events, compilation.grammar.Completes .recorder events tokens) ∧
        (∀ journal, compilation.grammar.Completes .warnings journal tokens) ∧
        ∀ journal, compilation.grammar.Completes (.tracer compilation.grammar) journal tokens := by
  obtain ⟨compilation, hcompile⟩ := Grammar.exists_compile hlabels hrules
  have hgrammar := Grammar.indexes_of_compile hcompile
  refine ⟨compilation, hcompile, hgrammar.exists_listing, fun tokens hadmits => ?_⟩
  have hcompletes {σ : Type} {observer : Observer σ}
      (hfollows : observer.Follows compilation.grammar) (state : σ) :=
    Grammar.completes_of_follows hgrammar hadmits hfollows state
  refine ⟨?_, hcompletes Observer.silent_follows (), hcompletes Observer.recorder_follows,
    hcompletes Observer.warnings_follows, hcompletes (Observer.tracer_follows hgrammar)⟩
  intro start limits
  obtain ⟨progress, hfill⟩ := (hcompletes Observer.silent_follows ()).fill
  obtain ⟨recognition, hrecognize, -⟩ :=
    Parser.recognize_of_fill ⟨compilation.grammar, start, limits⟩ hgrammar hfill
  exact ⟨recognition, hrecognize⟩

theorem everything_completes_doubling :
    ∃ compilation, Grammar.compile doubling = .ok compilation ∧
      (∃ text, compilation.grammar.listing = .ok text) ∧
      compilation.grammar.Admits 3 ∧
      compilation.grammar.Completes .recorder #[] ["a", "a", "b"] ∧
      compilation.grammar.Completes (.tracer compilation.grammar) #[] ["a", "a", "b"] := by
  obtain ⟨compilation, hcompile, hlisting, hcompletes⟩ :=
    everything_completes doubling (by decide) (by decide +kernel)
  have hadmits : (Grammar.compile doubling).toOption.map
      (fun compilation => decide (compilation.grammar.Admits 3)) = some true := by
    decide +kernel
  rw [hcompile] at hadmits
  have hsizes := of_decide_eq_true (Option.some.inj hadmits)
  obtain ⟨-, -, hrecorder, -, htracer⟩ := hcompletes ["a", "a", "b"] hsizes
  exact ⟨compilation, hcompile, hlisting, hsizes, hrecorder #[], htracer #[]⟩

end ChartParsing
