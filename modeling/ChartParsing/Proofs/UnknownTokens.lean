import ChartParsing.Proofs.Acceptance
import ChartParsing.Proofs.Filling.Account

/-!
# Unknown tokens

A token is unknown if it is a nonterminal or if no production has it alone on its right-hand side;
a token may also stand only in productions that were dropped.  All of these are reported alike, by
position and after the start label.  No derivation gets across such a token, so a span over it has
no constituents, and the input is rejected.
-/

namespace ChartParsing

open Outcome

def Unknown (rules : List Production) (token : String) : Prop :=
  token ∈ headLabels rules ∨ ∀ rule ∈ rules, rule.rhs ≠ [token]

instance (rules : List Production) (token : String) : Decidable (Unknown rules token) :=
  inferInstanceAs (Decidable (_ ∨ _))

/-- What there is to report of an input: the start label, then the tokens by position. -/
def reports (rules : List Production) (start : String) (tokens : List String) :
    List Diagnostic :=
  (if start ∈ headLabels rules then [] else [.unknownStart start]) ++
    (tokens.zipIdx.filter fun item => Unknown rules item.1).map fun item =>
      .unknownToken item.2 item.1

section Labels

variable {rules : List Production} {token : String}

theorem unknown_iff : Unknown rules token ↔ token ∉ terminalLabels rules := by
  rw [mem_terminalLabels_iff, Unknown]
  constructor
  · rintro hunknown ⟨lhs, hrule⟩
    cases hrule with
    | terminal hmem htoken =>
        rcases hunknown with hhead | hnone
        · exact htoken hhead
        · exact hnone _ hmem rfl
  · intro hnone
    by_cases hhead : token ∈ headLabels rules
    · exact .inl hhead
    · refine .inr ?_
      rintro ⟨lhs, rhs⟩ hmem rfl
      exact hnone ⟨lhs, .terminal hmem hhead⟩

theorem unknownTokens_eq (rules : List Production) (tokens : List String) :
    unknownTokens rules tokens =
      (tokens.zipIdx.filter fun item => Unknown rules item.1).map fun item =>
        .unknownToken item.2 item.1 := by
  rw [unknownTokens]
  induction tokens.zipIdx with
  | nil => rfl
  | cons item items ih =>
      by_cases hitem : item.1 ∈ terminalLabels rules
      · simp [ih, unknown_iff, hitem]
      · simp [ih, unknown_iff, hitem]

end Labels

section Blocking

variable {grammar : Grammar} {rules : List Production} {tokens : List String} {position : Nat}
  {token : String} (hgrammar : grammar.Indexes (headLabels rules) rules)
  (htoken : tokens[position]? = some token) (hunknown : Unknown rules token)

include hgrammar htoken hunknown

-- A split falls on one side of the token, so one of the two parts has it still.
theorem Grammar.Yields.misses_unknown {constituent : Constituent}
    (h : grammar.Yields tokens constituent) :
    ¬ (constituent.span.start ≤ position ∧ position < constituent.span.stop) := by
  induction h with
  | @token head terminal other place hother hterminal hhead =>
      rintro ⟨hstart, hstop⟩
      have hplace : place = position := Nat.le_antisymm hstart (Nat.le_of_lt_succ hstop)
      rw [hplace, htoken, Option.some.injEq] at hother
      rcases hgrammar.mem_unaryHeads_iff.mp hhead with ⟨lhs, label, hrule, -, hlabel⟩
      cases hgrammar.symbols.label_inj hlabel hterminal
      rw [← hother] at hrule
      exact unknown_iff.mp hunknown (mem_terminalLabels_iff.mpr ⟨lhs, hrule⟩)
  | @pair head left right start split stop hhead hleft hright ihLeft ihRight =>
      rintro ⟨hstart, hstop⟩
      by_cases hside : position < split
      · exact ihLeft ⟨hstart, hside⟩
      · exact ihRight ⟨Nat.le_of_not_lt hside, hstop⟩

variable {σ : Type} {observer : Observer σ} {state : σ}

theorem Grammar.nothing_over_unknown {progress : Progress σ}
    (hfill : grammar.fill observer state tokens = .ok progress) {start stop : Nat}
    (hstart : start ≤ position) (hstop : position < stop) :
    (stop ≤ tokens.length → progress.filling.chart.cell ⟨start, stop⟩ = .ok []) ∧
      ∀ symbol, progress.filling.evidence.get? ⟨symbol, ⟨start, stop⟩⟩ = none := by
  have hnone : ∀ symbol, ¬ grammar.Yields tokens ⟨symbol, ⟨start, stop⟩⟩ :=
    fun symbol hyields =>
      hyields.misses_unknown hgrammar htoken hunknown ⟨hstart, hstop⟩
  refine ⟨fun hlength => ?_, fun symbol => get?_of_not_yields hgrammar hfill (hnone symbol)⟩
  rcases grammar.exists_known tokens with ⟨known, hknown⟩
  have hspan : (⟨start, stop⟩ : Span).Within tokens.length :=
    ⟨Nat.lt_of_le_of_lt hstart hstop, hlength⟩
  rw [cell_of_fill hgrammar hfill hknown hspan, Except.ok.injEq, List.filter_eq_nil_iff]
  intro symbol _
  rw [hknown]
  exact hnone symbol

end Blocking

namespace Parser

variable {σ : Type} {parser : Parser} {observer : Observer σ} {state : σ} {rules : List Production}
  {tokens : List String} (hgrammar : parser.grammar.Indexes (headLabels rules) rules)
  {verdict : Verdict σ} (hjudge : parser.judge observer state tokens = .ok verdict)

include hgrammar hjudge

theorem diagnostics_of_judge :
    verdict.diagnostics = reports rules parser.startLabel tokens := by
  rcases recognition_of_judge hjudge with ⟨progress, hfill, hrecognition⟩
  have hdiagnostics : verdict.diagnostics =
      parser.startDiagnostics ++ progress.filling.diagnostics :=
    congrArg Recognition.diagnostics hrecognition
  rw [hdiagnostics, startDiagnostics_eq hgrammar, (Grammar.account_of_fill hgrammar hfill).2,
    unknownTokens_eq, reports]

theorem rejects_unknown {token : String} (htoken : token ∈ tokens)
    (hunknown : Unknown rules token) : verdict.accepted = false := by
  rcases List.mem_iff_getElem?.mp htoken with ⟨position, hposition⟩
  rw [← Bool.not_eq_true, accepted_iff_of_judge hgrammar hjudge]
  rintro ⟨start, -, hyields⟩
  exact hyields.misses_unknown hgrammar hposition hunknown
    ⟨Nat.zero_le _, (List.getElem?_eq_some_iff.mp hposition).1⟩

end Parser

/--
The diagnostics of recognising and of parsing are the reports of the input.  Over an unknown token
there is nothing, in the chart or in the evidence, and an input with one is rejected and has no
trees.
-/
theorem Parser.unknown_tokens_block {rules : List Production} {compilation : Compilation}
    (hcompile : Grammar.compile rules = .ok compilation) (start : String) (limits : Limits)
    (tokens : List String) :
    (compilation.grammar.Admits tokens.length →
      (∃ recognition, recognize ⟨compilation.grammar, start, limits⟩ tokens = .ok recognition) ∧
      ∃ outcome, parse ⟨compilation.grammar, start, limits⟩ .silent () tokens = .ok outcome) ∧
    (∀ recognition, recognize ⟨compilation.grammar, start, limits⟩ tokens = .ok recognition →
      recognition.diagnostics = reports rules start tokens ∧
      ((∃ token ∈ tokens, Unknown rules token) → recognition.accepted = false)) ∧
    ∀ (σ : Type) (observer : Observer σ) (state : σ) (outcome : Outcome σ),
      parse ⟨compilation.grammar, start, limits⟩ observer state tokens = .ok outcome →
      outcome.verdict.diagnostics = reports rules start tokens ∧
      ∀ position token, tokens[position]? = some token → Unknown rules token →
        (∀ first stop, first ≤ position → position < stop →
          (stop ≤ tokens.length →
            outcome.verdict.filling.chart.cell ⟨first, stop⟩ = .ok []) ∧
          ∀ symbol, outcome.verdict.filling.evidence.get? ⟨symbol, ⟨first, stop⟩⟩ = none) ∧
        outcome.verdict.accepted = false ∧ outcome.forest.trees = [] ∧
          outcome.forest.truncated = false := by
  have hgrammar := Grammar.indexes_of_compile hcompile
  refine ⟨?_, ?_, ?_⟩
  · intro hadmits
    rcases Grammar.exists_fill_silent hgrammar hadmits () with ⟨progress, hfill⟩
    rcases recognize_of_fill ⟨compilation.grammar, start, limits⟩ hgrammar hfill with
      ⟨recognition, hrecognize, -⟩
    rcases parse_of_fill ⟨compilation.grammar, start, limits⟩ hgrammar hfill with
      ⟨outcome, hparse, -⟩
    exact ⟨⟨recognition, hrecognize⟩, outcome, hparse⟩
  · intro recognition hrecognize
    rcases judge_of_recognize hrecognize with ⟨verdict, hjudge, rfl⟩
    refine ⟨diagnostics_of_judge hgrammar hjudge, ?_⟩
    rintro ⟨token, htoken, hunknown⟩
    exact rejects_unknown hgrammar hjudge htoken hunknown
  · intro σ observer state outcome hparse
    have hjudge := (judge_of_parse hparse).1
    refine ⟨diagnostics_of_judge hgrammar hjudge, fun position token htoken hunknown => ?_⟩
    have hrejected := rejects_unknown hgrammar hjudge (List.mem_of_getElem? htoken) hunknown
    have hforest := (accepted_iff_of_parse hgrammar hparse).2.1 hrejected
    refine ⟨fun first stop hfirst hstop => ?_, hrejected, by rw [hforest]; rfl, by
      rw [hforest]; rfl⟩
    rcases fill_of_judge hjudge with ⟨progress, hfill⟩
    rcases judge_of_fill hgrammar hfill with ⟨other, hother, hfilling, -⟩
    cases hjudge.symm.trans hother
    rw [hfilling]
    exact Grammar.nothing_over_unknown hgrammar htoken hunknown hfill hfirst hstop

theorem Parser.mixed_tokens_block :
    ∃ compilation outcome, Grammar.compile mixed = .ok compilation ∧
      parse ⟨compilation.grammar, "b", .unbounded⟩ .silent () ["a", "a", "b", "B", "c"] =
        .ok outcome ∧
      outcome.verdict.diagnostics =
        [.unknownStart "b", .unknownToken 2 "b", .unknownToken 3 "B", .unknownToken 4 "c"] ∧
      outcome.verdict.filling.chart.cell ⟨1, 3⟩ = .ok [] ∧
      outcome.verdict.filling.evidence.get? ⟨⟨1, by decide⟩, ⟨0, 5⟩⟩ = none ∧
      outcome.verdict.accepted = false := by
  have hrun : (Grammar.compile mixed >>= fun compilation =>
      .ok (parse ⟨compilation.grammar, "b", .unbounded⟩ .silent ()
        ["a", "a", "b", "B", "c"]).toOption.isSome) = .ok true := by
    decide +kernel
  rcases bind_eq_ok.mp hrun with ⟨compilation, hcompile, hsome⟩
  cases hparse : parse ⟨compilation.grammar, "b", .unbounded⟩ .silent ()
      ["a", "a", "b", "B", "c"] with
  | error error =>
      rw [hparse] at hsome
      cases hsome
  | ok outcome =>
      rcases unknown_tokens_block hcompile "b" .unbounded ["a", "a", "b", "B", "c"] with
        ⟨-, -, houtcome⟩
      rcases houtcome Unit .silent () outcome hparse with ⟨hdiagnostics, hblocks⟩
      rcases hblocks 2 "b" rfl (by decide) with ⟨hspans, hrejected, -⟩
      exact ⟨compilation, outcome, hcompile, hparse, hdiagnostics.trans (by decide +kernel),
        (hspans 1 3 (by decide) (by decide)).1 (by decide),
        (hspans 0 5 (by decide) (by decide)).2 _, hrejected⟩

end ChartParsing
