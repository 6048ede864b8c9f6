import ChartParsing.Proofs.Totality

/-!
# Parsing agrees with recognising

Recognising asks the chart, and parsing reads trees besides.  Both judge the
same filling, whoever observes it.  An accepted input has a tree, since every
witness in the evidence stands for at least one; so the forest tells acceptance
too, as long as it is allowed to have a tree or says that it was cut.
-/

namespace ChartParsing

open Outcome

/-! ## Forests under a cap -/

theorem Limits.cap_ne_zero {limits : Limits} (hperNode : limits.perNode ≠ some 0)
    (htotal : limits.total ≠ some 0) : limits.cap ≠ some 0 := by
  rcases limits with ⟨_ | perNode, _ | total⟩ <;> simp [cap] at * <;> omega

theorem Forest.nonempty_or_truncated {evidence : Evidence} {root : Constituent}
    {whole forest : Forest} {cap : Option Nat} (hwhole : read evidence none root = .ok whole)
    (hread : read evidence cap root = .ok forest) :
    (forest.trees ≠ [] ∨ forest.truncated = true) ∧ (cap ≠ some 0 → forest.trees ≠ []) := by
  cases cap with
  | none =>
      cases hwhole.symm.trans hread
      have hne := (read_cut hwhole 0).1.trees_ne_nil
      exact ⟨.inl hne, fun _ => hne⟩
  | some cap =>
      rcases read_cut hwhole cap with ⟨hnonempty, hcut⟩
      cases hread.symm.trans hcut
      have hpos := List.length_pos_iff.mpr hnonempty.trees_ne_nil
      simp only [cut, ne_eq, List.take_eq_nil_iff, decide_eq_true_eq, Option.some.injEq]
      constructor
      · by_cases hcap : cap = 0
        · exact .inr (by omega)
        · exact .inl (by simp [hcap, hnonempty.trees_ne_nil])
      · intro hcap
        simp [hcap, hnonempty.trees_ne_nil]

/-! ## Two ways to judge an input -/

namespace Parser

variable {σ : Type} {parser : Parser} {observer : Observer σ} {state : σ}
  {tokens : List String} {rules : List Production}

theorem judge_of_parse {outcome : Outcome σ}
    (hparse : parser.parse observer state tokens = .ok outcome) :
    parser.judge observer state tokens = .ok outcome.verdict ∧
      parser.trees outcome.verdict = .ok outcome.forest := by
  rcases bind_eq_ok.mp hparse with ⟨verdict, hverdict, hrest⟩
  rcases bind_eq_ok.mp hrest with ⟨forest, htrees, houtcome⟩
  cases houtcome
  exact ⟨mapError_eq_ok.mp hverdict, htrees⟩

theorem recognize_of_judge {verdict : Verdict σ}
    (hjudge : parser.judge observer state tokens = .ok verdict) :
    parser.recognize tokens = .ok verdict.recognition := by
  rcases fill_of_judge hjudge with ⟨progress, hfill⟩
  rw [judge, hfill] at hjudge
  rw [recognize, judge, Grammar.fill_silent_of_fill hfill]
  cases hstart : parser.start? with
  | none =>
      rw [hstart] at hjudge
      cases hjudge
      rfl
  | some start =>
      simp only [bind, Except.bind, hstart] at hjudge ⊢
      cases haccepts : progress.filling.accepts start with
      | error fault =>
          rw [haccepts] at hjudge
          cases hjudge
      | ok accepted =>
          rw [haccepts] at hjudge
          cases hjudge
          rfl

theorem accepted_iff_of_parse (hgrammar : parser.grammar.Indexes (headLabels rules) rules)
    {outcome : Outcome σ} (hparse : parser.parse observer state tokens = .ok outcome) :
    (outcome.verdict.accepted = true ↔
        outcome.forest.trees ≠ [] ∨ outcome.forest.truncated = true) ∧
      (outcome.verdict.accepted = false → outcome.forest = ∅) ∧
      (parser.limits.cap ≠ some 0 →
        (outcome.verdict.accepted = true ↔ outcome.forest.trees ≠ [])) := by
  rcases judge_of_parse hparse with ⟨hjudge, htrees⟩
  cases haccepted : outcome.verdict.accepted with
  | false =>
      have hforest : outcome.forest = ∅ :=
        Except.ok.inj (htrees.symm.trans (parser.trees_of_rejected haccepted))
      simp [hforest, EmptyCollection.emptyCollection, Forest.empty]
  | true =>
      rcases parser.exact_of_judge hgrammar hjudge haccepted with ⟨start, -, hread, hexact⟩
      rcases Forest.nonempty_or_truncated hexact.readable (hread.symm.trans htrees) with
        ⟨hsome, hnonempty⟩
      refine ⟨by simpa using hsome, by simp, fun hcap => ?_⟩
      simpa using hnonempty hcap

end Parser

/--
Whoever observes it, a parse ends in the verdict of recognition, with the same counts and
diagnostics, and its forest has a tree or was cut if and only if the input is accepted; without a
limit of zero it has a tree.  An input that is recognised is parsed, unless the observer stops it.
-/
theorem Parser.parse_agrees_with_recognize {rules : List Production} {compilation : Compilation}
    (hcompile : Grammar.compile rules = .ok compilation) (start : String) (limits : Limits)
    (tokens : List String) :
    (compilation.grammar.Admits tokens.length → ∃ recognition,
      recognize ⟨compilation.grammar, start, limits⟩ tokens = .ok recognition) ∧
    ∀ (σ : Type) (observer : Observer σ) (state : σ),
      (∀ recognition, recognize ⟨compilation.grammar, start, limits⟩ tokens = .ok recognition →
        observer.Follows compilation.grammar →
        ∃ outcome, parse ⟨compilation.grammar, start, limits⟩ observer state tokens =
          .ok outcome) ∧
      ∀ outcome, parse ⟨compilation.grammar, start, limits⟩ observer state tokens = .ok outcome →
        recognize ⟨compilation.grammar, start, limits⟩ tokens =
          .ok ⟨outcome.verdict.accepted, outcome.verdict.filling.stats,
            outcome.verdict.diagnostics⟩ ∧
        (outcome.verdict.accepted = true ↔
          outcome.forest.trees ≠ [] ∨ outcome.forest.truncated = true) ∧
        (outcome.verdict.accepted = false →
          outcome.forest.trees = [] ∧ outcome.forest.truncated = false) ∧
        (limits.perNode ≠ some 0 → limits.total ≠ some 0 →
          (outcome.verdict.accepted = true ↔ outcome.forest.trees ≠ [])) := by
  have hgrammar := Grammar.indexes_of_compile hcompile
  refine ⟨?_, fun σ observer state => ⟨?_, ?_⟩⟩
  · intro hadmits
    rcases Grammar.exists_fill_silent hgrammar hadmits () with ⟨progress, hfill⟩
    rcases recognize_of_fill ⟨compilation.grammar, start, limits⟩ hgrammar hfill with
      ⟨recognition, hrecognize, -⟩
    exact ⟨recognition, hrecognize⟩
  · intro recognition hrecognize hfollows
    rcases fill_of_recognize hrecognize with ⟨silent, hsilent⟩
    rcases Grammar.fill_of_follows hgrammar hsilent hfollows state with ⟨progress, hfill⟩
    rcases parse_of_fill ⟨compilation.grammar, start, limits⟩ hgrammar hfill with
      ⟨outcome, hparse, -⟩
    exact ⟨outcome, hparse⟩
  · intro outcome hparse
    rcases accepted_iff_of_parse hgrammar hparse with ⟨haccepted, hrejected, hnonempty⟩
    refine ⟨recognize_of_judge (judge_of_parse hparse).1, haccepted, ?_, ?_⟩
    · intro hnot
      rw [hrejected hnot]
      exact ⟨rfl, rfl⟩
    · intro hperNode htotal
      exact hnonempty (Limits.cap_ne_zero hperNode htotal)

theorem Parser.parse_doubling_agrees :
    ∃ compilation outcome, Grammar.compile doubling = .ok compilation ∧
      parse ⟨compilation.grammar, "S", ⟨some 0, none⟩⟩ .recorder #[] ["a", "a"] = .ok outcome ∧
      outcome.forest = ⟨[], true⟩ ∧
      recognize ⟨compilation.grammar, "S", ⟨some 0, none⟩⟩ ["a", "a"] =
        .ok ⟨true, outcome.verdict.filling.stats, outcome.verdict.diagnostics⟩ := by
  have hrun : (Grammar.compile doubling >>= fun compilation =>
      .ok ((parse ⟨compilation.grammar, "S", ⟨some 0, none⟩⟩ .recorder #[]
        ["a", "a"]).toOption.map Outcome.forest)) = .ok (some ⟨[], true⟩) := by
    decide +kernel
  rcases bind_eq_ok.mp hrun with ⟨compilation, hcompile, hforest⟩
  rcases Option.map_eq_some_iff.mp (Except.ok.inj hforest) with ⟨outcome, hoption, htrees⟩
  cases hparse : parse ⟨compilation.grammar, "S", ⟨some 0, none⟩⟩ .recorder #[] ["a", "a"] with
  | error error =>
      rw [hparse] at hoption
      cases hoption
  | ok parsed =>
      rw [hparse] at hoption
      cases hoption
      rcases parse_agrees_with_recognize hcompile "S" ⟨some 0, none⟩ ["a", "a"] with
        ⟨-, hagrees⟩
      rcases (hagrees _ .recorder #[]).2 _ hparse with ⟨hrecognize, haccepted, -⟩
      rw [haccepted.mpr (.inr (by rw [htrees]))] at hrecognize
      exact ⟨compilation, _, hcompile, hparse, htrees, hrecognize⟩

end ChartParsing
