import ChartParsing.Proofs.Forest.Derivation
import ChartParsing.Proofs.Forest.Limits

/-!
# Reading never contradicts the chart

The evidence of a filled chart has witnesses for the constituents in the chart
and for no others, and the parts of every witness are in the chart as well.  So
the trees of a constituent can be read, within any limits, if and only if the
chart holds it; and otherwise it is the constituent asked for that is missing.
-/

namespace ChartParsing

open Outcome Grouping

section Consistency

variable {σ : Type} {grammar : Grammar} {rules : List Production} {tokens : List String}
  {observer : Observer σ} {state : σ} {progress : Progress σ} {root : Constituent}

theorem Grammar.exact_of_fill (hgrammar : grammar.Indexes (headLabels rules) rules)
    (hfill : grammar.fill observer state tokens = .ok progress)
    (h : grammar.Yields tokens root) :
    progress.filling.evidence.Exact grammar tokens root := by
  obtain ⟨known, hknown⟩ := grammar.exists_known tokens
  exact Evidence.exact_of_yields hgrammar hknown (length_lt_of_fill hgrammar hfill)
    (fun _ => get?_of_fill hgrammar hknown hfill) h

theorem Evidence.Exact.read {evidence : Evidence} (h : evidence.Exact grammar tokens root)
    (cap : Option Nat) :
    ∃ forest, Forest.read evidence cap root = .ok forest ∧
      ∀ tree ∈ forest.trees, grammar.Builds tokens root tree := by
  have hread := h.readable
  cases cap with
  | none => exact ⟨_, hread, fun tree => (h.mem_iff tree).mp⟩
  | some cap =>
      refine ⟨_, (Forest.read_cut hread cap).2, ?_⟩
      intro tree htree
      exact (h.mem_iff tree).mp (List.mem_of_mem_take htree)

theorem Grammar.read_of_not_yields (hgrammar : grammar.Indexes (headLabels rules) rules)
    (hfill : grammar.fill observer state tokens = .ok progress)
    (h : ¬ grammar.Yields tokens root) (cap : Option Nat) :
    Forest.read progress.filling.evidence cap root = .error (.missing root) := by
  rw [Forest.read, Forest.ofParts, get?_of_not_yields hgrammar hfill h]
  rfl

end Consistency

section Parsing

variable {σ : Type} (parser : Parser) {rules : List Production} {tokens : List String}
  {observer : Observer σ} {state : σ}

theorem Parser.trees_of_rejected {verdict : Verdict σ} (h : verdict.accepted = false) :
    parser.trees verdict = .ok ∅ := by
  rw [trees, h]

theorem Parser.exact_of_judge (hgrammar : parser.grammar.Indexes (headLabels rules) rules)
    {verdict : Verdict σ} (hjudge : parser.judge observer state tokens = .ok verdict)
    (haccepted : verdict.accepted = true) :
    ∃ start, parser.start? = some start ∧
      parser.trees verdict = Forest.read verdict.filling.evidence parser.limits.cap
        ⟨start, ⟨0, tokens.length⟩⟩ ∧
      verdict.filling.evidence.Exact parser.grammar tokens ⟨start, ⟨0, tokens.length⟩⟩ := by
  rcases fill_of_judge hjudge with ⟨progress, hfill⟩
  rcases judge_of_fill hgrammar hfill with ⟨other, hother, hfilling, haccepts⟩
  cases hjudge.symm.trans hother
  rcases haccepts.mp haccepted with ⟨start, hstart, hyields⟩
  have hspan : verdict.filling.chart.fullSpan? = some ⟨0, tokens.length⟩ := by
    rcases parser.grammar.exists_known tokens with ⟨known, hknown⟩
    have hnumTokens := (Grammar.shows_of_fill hgrammar hknown hfill).numTokens_eq
    have hpos := hyields.within.start_lt
    rw [hfilling, Chart.fullSpan?, hnumTokens, if_neg (Nat.ne_of_gt hpos)]
  refine ⟨start, hstart, trees_of_accepted haccepted hstart hspan, ?_⟩
  rw [hfilling]
  exact Grammar.exact_of_fill hgrammar hfill hyields

theorem Parser.parse_of_fill (hgrammar : parser.grammar.Indexes (headLabels rules) rules)
    {progress : Progress σ}
    (hfill : parser.grammar.fill observer state tokens = .ok progress) :
    ∃ outcome, parser.parse observer state tokens = .ok outcome ∧
      ∀ tree ∈ outcome.forest.trees, ∃ root, parser.grammar.Builds tokens root tree := by
  rcases judge_of_fill hgrammar hfill with ⟨verdict, hjudge, -⟩
  cases haccepted : verdict.accepted with
  | false => exact ⟨_, parse_of_trees hjudge (parser.trees_of_rejected haccepted), nofun⟩
  | true =>
      rcases parser.exact_of_judge hgrammar hjudge haccepted with ⟨start, -, htrees, hexact⟩
      rcases hexact.read parser.limits.cap with ⟨forest, hread, hbuilds⟩
      refine ⟨_, parse_of_trees hjudge (htrees.trans hread), ?_⟩
      intro tree htree
      exact ⟨_, hbuilds tree htree⟩

theorem Parser.parse_of_fault {cause : Fault}
    (hfill : parser.grammar.fill observer state tokens = .error cause) :
    parser.parse observer state tokens = .error (.fault cause) := by
  rw [parse, judge, hfill]
  rfl

end Parsing

/-! ## The chart and the extractor -/

/--
The extractor has trees for what the chart holds, and says of everything else over the input that
it is missing.  So an input of an admitted size is parsed, and an input is not parsed only if its
chart cannot be filled.
-/
theorem extract_iff_contains {rules : List Production} {compilation : Compilation}
    (hcompile : Grammar.compile rules = .ok compilation) (tokens : List String) :
    (compilation.grammar.Admits tokens.length →
      ∀ start limits, ∃ outcome,
        Parser.parse ⟨compilation.grammar, start, limits⟩ .silent () tokens = .ok outcome) ∧
    ∀ (σ : Type) (observer : Observer σ) (state : σ),
      (∀ progress, compilation.grammar.fill observer state tokens = .ok progress →
        ∀ limits symbol start stop, start < stop → stop ≤ tokens.length →
          progress.filling.chart.contains ⟨symbol, ⟨start, stop⟩⟩ = .ok true ∧
              (∃ forest, (((Extractor.ofEvidence progress.filling.evidence).withLimits
                limits).extract ⟨symbol, ⟨start, stop⟩⟩).1 = .ok forest) ∨
            progress.filling.chart.contains ⟨symbol, ⟨start, stop⟩⟩ = .ok false ∧
              (((Extractor.ofEvidence progress.filling.evidence).withLimits
                limits).extract ⟨symbol, ⟨start, stop⟩⟩).1 =
                  .error (.missing ⟨symbol, ⟨start, stop⟩⟩)) ∧
      ∀ start limits,
        (∃ outcome, Parser.parse ⟨compilation.grammar, start, limits⟩ observer state tokens =
          .ok outcome) ∨
        ∃ cause, compilation.grammar.fill observer state tokens = .error cause ∧
          Parser.parse ⟨compilation.grammar, start, limits⟩ observer state tokens =
            .error (.fault cause) := by
  have hgrammar := Grammar.indexes_of_compile hcompile
  refine ⟨?_, fun σ observer state => ⟨?_, ?_⟩⟩
  · intro hadmits start limits
    obtain ⟨progress, hfill⟩ := Grammar.exists_fill_silent hgrammar hadmits ()
    obtain ⟨outcome, hparse, -⟩ :=
      Parser.parse_of_fill ⟨compilation.grammar, start, limits⟩ hgrammar hfill
    exact ⟨outcome, hparse⟩
  · intro progress hfill limits symbol start stop hstart hstop
    have hspan : (⟨start, stop⟩ : Span).Within tokens.length := ⟨hstart, hstop⟩
    obtain ⟨answer, hcontains, hanswer⟩ :=
      Grammar.contains_of_fill hgrammar hfill ⟨symbol, ⟨start, stop⟩⟩ hspan
    rw [Extractor.extract_withLimits, hcontains]
    cases answer with
    | true =>
        have hyields := hanswer.mp rfl
        obtain ⟨forest, hread, -⟩ :=
          (Grammar.exact_of_fill hgrammar hfill hyields).read limits.cap
        exact .inl ⟨rfl, forest, hread⟩
    | false =>
        have hnot : ¬ compilation.grammar.Yields tokens ⟨symbol, ⟨start, stop⟩⟩ := by
          simpa using hanswer
        exact .inr ⟨rfl, Grammar.read_of_not_yields hgrammar hfill hnot limits.cap⟩
  · intro start limits
    cases hfill : compilation.grammar.fill observer state tokens with
    | error cause => exact .inr ⟨cause, rfl, Parser.parse_of_fault _ hfill⟩
    | ok progress =>
        obtain ⟨outcome, hparse, -⟩ :=
          Parser.parse_of_fill ⟨compilation.grammar, start, limits⟩ hgrammar hfill
        exact .inl ⟨outcome, hparse⟩

theorem extract_doubling_iff_contains :
    ∃ compilation progress, Grammar.compile doubling = .ok compilation ∧
      compilation.grammar.fill .silent () ["a", "a", "a"] = .ok progress ∧
      (∃ forest, (((Extractor.ofEvidence progress.filling.evidence).withLimits
        ⟨some 1, none⟩).extract ⟨⟨1, by decide⟩, ⟨0, 3⟩⟩).1 = .ok forest) ∧
      (((Extractor.ofEvidence progress.filling.evidence).withLimits
        ⟨some 1, none⟩).extract ⟨⟨2, by decide⟩, ⟨0, 3⟩⟩).1 =
          .error (.missing ⟨⟨2, by decide⟩, ⟨0, 3⟩⟩) := by
  have hcells : ((Grammar.compile doubling).toOption.bind fun compilation =>
      (compilation.grammar.fill .silent () ["a", "a", "a"]).toOption.map fun progress =>
        ((progress.filling.chart.contains ⟨⟨1, by decide⟩, ⟨0, 3⟩⟩).toOption,
          (progress.filling.chart.contains ⟨⟨2, by decide⟩, ⟨0, 3⟩⟩).toOption)) =
      some (some true, some false) := by
    decide +kernel
  cases hcompile : Grammar.compile doubling with
  | error fault =>
      rw [hcompile] at hcells
      cases hcells
  | ok compilation =>
      rw [hcompile] at hcells
      obtain ⟨-, hconsistent⟩ := extract_iff_contains hcompile ["a", "a", "a"]
      obtain ⟨hextract, -⟩ := hconsistent Unit .silent ()
      cases hfill : compilation.grammar.fill .silent () ["a", "a", "a"] with
      | error fault =>
          simp only [Except.toOption, Option.bind_some, hfill] at hcells
          cases hcells
      | ok progress =>
          simp only [Except.toOption, Option.bind_some, hfill, Option.map_some, Option.some.injEq,
            Prod.mk.injEq] at hcells
          refine ⟨compilation, progress, rfl, hfill, ?_, ?_⟩
          · rcases hextract progress hfill ⟨some 1, none⟩ ⟨1, by decide⟩ 0 3 (by decide)
              (by decide) with ⟨-, hforest⟩ | ⟨hfalse, -⟩
            · exact hforest
            · rw [hfalse] at hcells
              simp at hcells
          · rcases hextract progress hfill ⟨some 1, none⟩ ⟨2, by decide⟩ 0 3 (by decide)
              (by decide) with ⟨htrue, -⟩ | ⟨-, hmissing⟩
            · rw [htrue] at hcells
              simp at hcells
            · exact hmissing

end ChartParsing
