import ChartParsing.Parser
import ChartParsing.Proofs.Filling.Sizes

/-!
# Recognition is exact

The chart of an input holds what the input derives: a label is in the cell of a
span if and only if it derives the tokens of the span by the productions in
Chomsky normal form.  So an input is accepted if and only if the start label
derives it.
-/

namespace ChartParsing

open Outcome

section Exactness

variable {σ : Type} {grammar : Grammar} {rules : List Production} {tokens : List String}

theorem Grammar.exists_known (grammar : Grammar) (tokens : List String) :
    ∃ known : Constituent → Bool,
      ∀ constituent, known constituent = true ↔ grammar.Yields tokens constituent := by
  classical
  exact ⟨fun constituent => decide (grammar.Yields tokens constituent), by simp⟩

theorem Grammar.exists_fill_silent (hgrammar : grammar.Indexes (headLabels rules) rules)
    (hadmits : grammar.Admits tokens.length) (state : σ) :
    ∃ progress, grammar.fill .silent state tokens = .ok progress := by
  obtain ⟨known, hknown⟩ := grammar.exists_known tokens
  exact fill_silent_of_fitsRun hgrammar hknown (hadmits.fitsRun hgrammar known) state

theorem Grammar.length_lt_of_fill (hgrammar : grammar.Indexes (headLabels rules) rules)
    {observer : Observer σ} {state : σ} {progress : Progress σ}
    (hfill : grammar.fill observer state tokens = .ok progress) :
    tokens.length < Word.limit := by
  rcases grammar.exists_known tokens with ⟨known, hknown⟩
  have hshows := shows_of_fill hgrammar hknown hfill
  rw [← hshows.numTokens_eq]
  exact Chart.numTokens_lt hshows.fits

/-- A filled chart answers for every span of the input, and answers as the tables derive. -/
theorem Grammar.contains_of_fill (hgrammar : grammar.Indexes (headLabels rules) rules)
    {observer : Observer σ} {state : σ} {progress : Progress σ}
    (hfill : grammar.fill observer state tokens = .ok progress) (constituent : Constituent)
    (hspan : constituent.span.Within tokens.length) :
    ∃ answer, progress.filling.chart.contains constituent = .ok answer ∧
      (answer = true ↔ grammar.Yields tokens constituent) := by
  obtain ⟨known, hknown⟩ := grammar.exists_known tokens
  have hshows := shows_of_fill hgrammar hknown hfill
  have hwithin := hspan
  rw [← hshows.numTokens_eq] at hwithin
  refine ⟨_, Chart.contains_eq hshows.fits hwithin.hasRow, ?_⟩
  rw [hshows.holds_iff constituent hspan, membersIn_log_of_width_le hgrammar known hspan,
    witnesses_ne_nil_iff hgrammar hknown]
  have hstop := hspan.stop_le
  simp only [Span.width]
  omega

theorem Filling.accepts_of_fill (hgrammar : grammar.Indexes (headLabels rules) rules)
    {observer : Observer σ} {state : σ} {progress : Progress σ}
    (hfill : grammar.fill observer state tokens = .ok progress) (start : Symbol) :
    ∃ answer, progress.filling.accepts start = .ok answer ∧
      (answer = true ↔ grammar.Yields tokens ⟨start, ⟨0, tokens.length⟩⟩) := by
  obtain ⟨known, hknown⟩ := grammar.exists_known tokens
  have hnumTokens := (grammar.shows_of_fill hgrammar hknown hfill).numTokens_eq
  unfold accepts Chart.fullSpan?
  rw [hnumTokens]
  by_cases hempty : tokens.length = 0
  · refine ⟨false, by simp [hempty], by simp, ?_⟩
    intro hyields
    have hlt := hyields.within.start_lt
    simp [hempty] at hlt
  · rw [if_neg hempty]
    exact grammar.contains_of_fill hgrammar hfill _ ⟨Nat.pos_of_ne_zero hempty, Nat.le_refl _⟩

end Exactness

section Judging

variable {σ : Type} {parser : Parser} {rules : List Production} {tokens : List String}
  {observer : Observer σ} {state : σ}

theorem Parser.judge_of_fill (hgrammar : parser.grammar.Indexes (headLabels rules) rules)
    {progress : Progress σ}
    (hfill : parser.grammar.fill observer state tokens = .ok progress) :
    ∃ verdict, parser.judge observer state tokens = .ok verdict ∧
      verdict.filling = { progress.filling with diagnostics := [] } ∧
      (verdict.accepted = true ↔ ∃ start, parser.start? = some start ∧
        parser.grammar.Yields tokens ⟨start, ⟨0, tokens.length⟩⟩) := by
  simp only [judge, hfill]
  cases parser.start? with
  | none => exact ⟨_, rfl, rfl, by simp⟩
  | some start =>
      obtain ⟨answer, haccepts, hanswer⟩ := Filling.accepts_of_fill hgrammar hfill start
      refine ⟨⟨answer, { progress.filling with diagnostics := [] },
        parser.startDiagnostics ++ progress.filling.diagnostics, progress.state⟩, ?_, rfl, ?_⟩
      · simp only [bind, Except.bind, haccepts]
        rfl
      · simp [hanswer]

theorem Parser.fill_of_judge {verdict : Verdict σ}
    (hjudge : parser.judge observer state tokens = .ok verdict) :
    ∃ progress, parser.grammar.fill observer state tokens = .ok progress := by
  obtain ⟨progress, hfill, -⟩ := bind_eq_ok.mp hjudge
  exact ⟨progress, hfill⟩

theorem Parser.accepted_iff_of_judge (hgrammar : parser.grammar.Indexes (headLabels rules) rules)
    {verdict : Verdict σ} (hjudge : parser.judge observer state tokens = .ok verdict) :
    verdict.accepted = true ↔ ∃ start, parser.start? = some start ∧
      parser.grammar.Yields tokens ⟨start, ⟨0, tokens.length⟩⟩ := by
  rcases fill_of_judge hjudge with ⟨progress, hfill⟩
  rcases judge_of_fill hgrammar hfill with ⟨other, hother, -, haccepted⟩
  cases hjudge.symm.trans hother
  exact haccepted

theorem Parser.startDiagnostics_eq (hgrammar : parser.grammar.Indexes (headLabels rules) rules) :
    parser.startDiagnostics =
      if parser.startLabel ∈ headLabels rules then [] else [.unknownStart parser.startLabel] := by
  rw [startDiagnostics]
  cases hstart : parser.start? with
  | none => rw [if_neg (hgrammar.nonterminal?_eq_none_iff.mp hstart)]
  | some start => rw [if_pos (hgrammar.nonterminal?_eq_some_iff.mp hstart).2]

theorem Parser.recognition_of_judge {verdict : Verdict σ}
    (hjudge : parser.judge observer state tokens = .ok verdict) :
    ∃ progress, parser.grammar.fill observer state tokens = .ok progress ∧
      verdict.recognition = ⟨verdict.accepted, progress.filling.stats,
        parser.startDiagnostics ++ progress.filling.diagnostics⟩ := by
  rcases bind_eq_ok.mp hjudge with ⟨progress, hfill, hrest⟩
  refine ⟨progress, hfill, ?_⟩
  cases hstart : parser.start? with
  | none =>
      simp only [hstart] at hrest
      cases hrest
      rfl
  | some start =>
      simp only [hstart] at hrest
      rcases bind_eq_ok.mp hrest with ⟨accepted, -, hverdict⟩
      cases hverdict
      rfl

theorem Parser.start_yields_iff_derives
    (hgrammar : parser.grammar.Indexes (headLabels rules) rules) :
    (∃ start, parser.start? = some start ∧
        parser.grammar.Yields tokens ⟨start, ⟨0, tokens.length⟩⟩) ↔
      tokens ≠ [] ∧ Derives rules parser.startLabel tokens := by
  constructor
  · rintro ⟨start, hstart, hyields⟩
    rw [start?, hgrammar.nonterminal?_eq_some_iff] at hstart
    have hderives := (Grammar.exists_yields_iff_derives hgrammar hyields.within
      parser.startLabel).mp ⟨start, hstart.1, hyields⟩
    simp only [List.extract_eq_take_drop, List.drop_zero, Nat.sub_zero,
      List.take_length] at hderives
    exact ⟨hderives.ne_nil, hderives⟩
  · rintro ⟨hne, hderives⟩
    have hspan : (⟨0, tokens.length⟩ : Span).Within tokens.length :=
      ⟨List.length_pos_iff.mpr hne, Nat.le_refl _⟩
    have hword : tokens.extract 0 tokens.length = tokens := by simp
    rw [← hword] at hderives
    obtain ⟨start, hstart, hyields⟩ :=
      (Grammar.exists_yields_iff_derives hgrammar hspan parser.startLabel).mpr hderives
    exact ⟨start, hgrammar.nonterminal?_eq_some_iff.mpr ⟨hstart, hderives.lhs_mem⟩, hyields⟩

end Judging

/-! ## From productions to verdicts -/

theorem Parser.recognize_of_fill (parser : Parser) {rules : List Production}
    (hgrammar : parser.grammar.Indexes (headLabels rules) rules) {tokens : List String}
    {progress : Progress Unit} (hfill : parser.grammar.fill .silent () tokens = .ok progress) :
    ∃ recognition, parser.recognize tokens = .ok recognition ∧
      (recognition.accepted = true ↔ tokens ≠ [] ∧ Derives rules parser.startLabel tokens) := by
  obtain ⟨verdict, hjudge, -, haccepted⟩ := judge_of_fill hgrammar hfill
  refine ⟨verdict.recognition, by rw [recognize, hjudge]; rfl, ?_⟩
  rw [← start_yields_iff_derives hgrammar]
  exact haccepted

theorem Parser.judge_of_recognize {parser : Parser} {tokens : List String}
    {recognition : Recognition} (h : parser.recognize tokens = .ok recognition) :
    ∃ verdict, parser.judge .silent () tokens = .ok verdict ∧
      recognition = verdict.recognition := by
  unfold recognize at h
  cases hjudge : parser.judge .silent () tokens with
  | error fault =>
      rw [hjudge] at h
      cases h
  | ok verdict =>
      rw [hjudge] at h
      cases h
      exact ⟨verdict, rfl, rfl⟩

theorem Parser.fill_of_recognize {parser : Parser} {tokens : List String}
    {recognition : Recognition} (h : parser.recognize tokens = .ok recognition) :
    ∃ progress, parser.grammar.fill .silent () tokens = .ok progress := by
  rcases judge_of_recognize h with ⟨verdict, hjudge, -⟩
  exact fill_of_judge hjudge

/--
The productions, whose number is a machine word, compile as long as there are symbols for their
labels.  An input within the admitted sizes has its chart filled and is recognised; and whenever an
input has, under any observer, the cells hold exactly the labels that derive their spans, and the
verdict is right.
-/
theorem chart_and_verdict_exact (rules : List Production) (hrules : rules.length < Word.limit)
    (hlabels : (vocabulary (headLabels rules) rules).eraseDups.length < Symbol.limit) :
    ∃ compilation, Grammar.compile rules = .ok compilation ∧
      ∀ tokens : List String,
        (compilation.grammar.Admits tokens.length →
          (∃ progress, compilation.grammar.fill .silent () tokens = .ok progress) ∧
          ∀ start limits, ∃ recognition,
            Parser.recognize ⟨compilation.grammar, start, limits⟩ tokens = .ok recognition) ∧
        (∀ (σ : Type) (observer : Observer σ) (state : σ) (progress : Progress σ),
          compilation.grammar.fill observer state tokens = .ok progress →
          ∀ start stop label, start < stop → stop ≤ tokens.length →
            ((∃ symbol, compilation.grammar.symbol? label = some symbol ∧
                progress.filling.chart.contains ⟨symbol, ⟨start, stop⟩⟩ = .ok true) ↔
              Derives rules label (tokens.extract start stop))) ∧
        ∀ start limits recognition,
          Parser.recognize ⟨compilation.grammar, start, limits⟩ tokens = .ok recognition →
          (recognition.accepted = true ↔ tokens ≠ [] ∧ Derives rules start tokens) ∧
          (start ∉ headLabels rules → recognition.accepted = false) := by
  obtain ⟨compilation, hcompile⟩ := Grammar.exists_compile hlabels hrules
  have hgrammar := Grammar.indexes_of_compile hcompile
  refine ⟨compilation, hcompile, fun tokens => ⟨?_, ?_, ?_⟩⟩
  · intro hadmits
    obtain ⟨known, hknown⟩ := compilation.grammar.exists_known tokens
    obtain ⟨progress, hfill⟩ := Grammar.fill_silent_of_fitsRun hgrammar hknown
      (hadmits.fitsRun hgrammar known) ()
    refine ⟨⟨progress, hfill⟩, fun start limits => ?_⟩
    obtain ⟨recognition, hrecognize, -⟩ :=
      Parser.recognize_of_fill ⟨compilation.grammar, start, limits⟩ hgrammar hfill
    exact ⟨recognition, hrecognize⟩
  · intro σ observer state progress hfill start stop label hstart hstop
    have hspan : (⟨start, stop⟩ : Span).Within tokens.length := ⟨hstart, hstop⟩
    rw [← Grammar.exists_yields_iff_derives hgrammar hspan label]
    apply exists_congr
    intro symbol
    obtain ⟨answer, hcontains, hanswer⟩ :=
      Grammar.contains_of_fill hgrammar hfill ⟨symbol, ⟨start, stop⟩⟩ hspan
    rw [hcontains, ← hanswer, Except.ok.injEq]
  · intro start limits recognition hrecognize
    obtain ⟨progress, hfill⟩ := Parser.fill_of_recognize hrecognize
    obtain ⟨other, hother, haccepted⟩ :=
      Parser.recognize_of_fill ⟨compilation.grammar, start, limits⟩ hgrammar hfill
    cases hrecognize.symm.trans hother
    refine ⟨haccepted, fun hstart => ?_⟩
    rw [← Bool.not_eq_true, haccepted]
    rintro ⟨-, hderives⟩
    exact hstart hderives.lhs_mem

def doubling : List Production := [⟨"S", ["S", "S"]⟩, ⟨"S", ["a"]⟩]

theorem doubling_chart_and_verdict_exact :
    ∃ compilation recognition, Grammar.compile doubling = .ok compilation ∧
      compilation.grammar.Admits 3 ∧
      Parser.recognize ⟨compilation.grammar, "S", .unbounded⟩ ["a", "a", "a"] =
        .ok recognition ∧
      (recognition.accepted = true ↔
        ["a", "a", "a"] ≠ [] ∧ Derives doubling "S" ["a", "a", "a"]) := by
  obtain ⟨compilation, hcompile, hexact⟩ :=
    chart_and_verdict_exact doubling (by decide) (by decide +kernel)
  have hadmits : (Grammar.compile doubling).toOption.map
      (fun compilation => decide (compilation.grammar.Admits 3)) = some true := by
    decide +kernel
  rw [hcompile] at hadmits
  have hsizes := of_decide_eq_true (Option.some.inj hadmits)
  obtain ⟨htotal, -, hverdict⟩ := hexact ["a", "a", "a"]
  obtain ⟨recognition, hrecognize⟩ := (htotal hsizes).2 "S" .unbounded
  exact ⟨compilation, recognition, hcompile, hsizes, hrecognize,
    (hverdict "S" .unbounded recognition hrecognize).1⟩

end ChartParsing
