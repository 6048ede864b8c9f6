import ChartParsing.Proofs.Filling.Witnesses
import ChartParsing.Proofs.Forest.Displacement
import ChartParsing.Proofs.Forest.Memo

/-!
# A cell depends on the tokens of its span

What a symbol derives is decided by the tokens under it.  So two windows with
the same tokens, in one input or in two, have the same cells, the same witnesses
up to the move from one window to the other, and the same trees.
-/

namespace ChartParsing

open Outcome Grouping

/-- Two windows of one length, each within its input, show the same tokens. -/
structure SameWindow (tokens other : List String) (source target length : Nat) : Prop where
  source_le : source + length ≤ tokens.length
  target_le : target + length ≤ other.length
  getElem?_eq : ∀ offset < length, other[target + offset]? = tokens[source + offset]?

theorem SameWindow.symm {tokens other : List String} {source target length : Nat}
    (h : SameWindow tokens other source target length) :
    SameWindow other tokens target source length :=
  ⟨h.target_le, h.source_le, fun offset hoffset => (h.getElem?_eq offset hoffset).symm⟩

theorem sameWindow_of_extract {tokens other : List String} {start stop start' stop' : Nat}
    (hstart : start < stop) (hstop : stop ≤ tokens.length) (hstart' : start' < stop')
    (hstop' : stop' ≤ other.length)
    (h : tokens.extract start stop = other.extract start' stop') :
    stop' = start' + (stop - start) ∧
      SameWindow tokens other start start' (stop - start) := by
  have hlength := congrArg List.length h
  simp only [List.extract_eq_take_drop, List.length_take, List.length_drop] at hlength
  refine ⟨by omega, by omega, by omega, ?_⟩
  intro offset hoffset
  have hoffset' : offset < stop' - start' := by omega
  have hitem := congrArg (·[offset]?) h
  simpa [List.extract_eq_take_drop, List.getElem?_take, hoffset, hoffset',
    List.getElem?_drop] using hitem.symm

section Windows

variable {grammar : Grammar} {rules : List Production} {tokens other : List String}
  {source target length : Nat} {constituent : Constituent}

theorem Span.Inside.move {span : Span} (h : span.Inside source length) :
    (span.move source target).Inside target length := by
  rcases h with ⟨hsource, hstart, hstop⟩
  constructor <;> simp only [Span.move] <;> omega

theorem Span.Inside.within {span : Span} (h : span.Inside source length)
    (hlength : source + length ≤ tokens.length) : span.Within tokens.length :=
  ⟨h.start_lt, Nat.le_trans h.stop_le hlength⟩

theorem Constituent.move_move (h : constituent.span.Inside source length) :
    (constituent.move source target).move target source = constituent := by
  rcases constituent with ⟨symbol, ⟨start, stop⟩⟩
  rcases h with ⟨hsource, hstart, -⟩
  simp only at hsource hstart
  have hstarts : start + target - source + source - target = start := by omega
  have hstops : stop + target - source + source - target = stop := by omega
  simp only [move, Span.move, hstarts, hstops]

theorem SameWindow.getElem?_move (hsame : SameWindow tokens other source target length)
    {position : Nat} (hsource : source ≤ position) (hstop : position < source + length) :
    other[position + target - source]? = tokens[position]? := by
  have htoken := hsame.getElem?_eq (position - source) (by omega)
  rw [show source + (position - source) = position by omega,
    show target + (position - source) = position + target - source by omega] at htoken
  exact htoken

/-! ## Derivations -/

theorem Grammar.Yields.move (hsame : SameWindow tokens other source target length)
    (h : grammar.Yields tokens constituent) (hinside : constituent.span.Inside source length) :
    grammar.Yields other (constituent.move source target) := by
  induction h with
  | @token head terminal token position htoken hterminal hhead =>
      rcases hinside with ⟨hsource, -, hstop⟩
      simp only at hsource hstop
      have hmoved : Constituent.move source target ⟨head, ⟨position, position + 1⟩⟩ =
          ⟨head, ⟨position + target - source, position + target - source + 1⟩⟩ := by
        simp only [Constituent.move, Span.move, Constituent.mk.injEq, Span.mk.injEq, true_and]
        omega
      rw [← hsame.getElem?_move hsource (by omega)] at htoken
      rw [hmoved]
      exact .token htoken hterminal hhead
  | @pair head left right start split stop hhead hleft hright ihLeft ihRight =>
      rcases hinside with ⟨hsource, -, hstop⟩
      simp only at hsource hstop
      have hleftLt : start < split := hleft.within.start_lt
      have hrightLt : split < stop := hright.within.start_lt
      exact .pair hhead (ihLeft ⟨hsource, hleftLt, by simp only; omega⟩)
        (ihRight ⟨by simp only; omega, hrightLt, hstop⟩)

theorem Grammar.yields_move_iff (hsame : SameWindow tokens other source target length)
    (hinside : constituent.span.Inside source length) :
    grammar.Yields other (constituent.move source target) ↔
      grammar.Yields tokens constituent := by
  constructor
  · intro h
    have hback := h.move hsame.symm hinside.move
    rwa [Constituent.move_move hinside] at hback
  · intro h
    exact h.move hsame hinside

/-! ## Witnesses -/

namespace Grammar

theorem splitPositions_move (target : Nat) {span : Span} (hsource : source ≤ span.start) :
    splitPositions (span.move source target) =
      (splitPositions span).map (· + target - source) := by
  have hcount : span.stop + target - source - (span.start + target - source + 1) =
      span.stop - (span.start + 1) := by omega
  simp only [splitPositions, Span.move, hcount]
  apply List.ext_getElem
  · simp
  · intro index _ _
    simp only [List.getElem_range', List.getElem_map]
    omega

theorem leafWitnesses_move (hsame : SameWindow tokens other source target length)
    (hinside : constituent.span.Inside source length) :
    grammar.leafWitnesses other (constituent.move source target) =
      (grammar.leafWitnesses tokens constituent).map (Witness.move source target) := by
  rcases hinside with ⟨hsource, hstart, hstop⟩
  have htoken := hsame.getElem?_move hsource (by omega)
  have hnext : constituent.span.stop + target - source =
      constituent.span.start + target - source + 1 ↔
      constituent.span.stop = constituent.span.start + 1 := by omega
  simp only [leafWitnesses, Constituent.move, Span.move, htoken, hnext]
  cases tokens[constituent.span.start]?.bind grammar.symbol? with
  | none => rfl
  | some terminal =>
      dsimp only
      split <;> rfl

theorem splitWitnesses_move {known known' : Constituent → Bool}
    (hknown : ∀ part : Constituent, part.span.Inside source length →
      known' (part.move source target) = known part)
    (hinside : constituent.span.Inside source length) :
    grammar.splitWitnesses known' (constituent.move source target) =
      (grammar.splitWitnesses known constituent).map (Witness.move source target) := by
  rcases hinside with ⟨hsource, -, hstop⟩
  have hpositions := splitPositions_move target hsource
  simp only [splitWitnesses, Constituent.move, hpositions, List.flatMap_map, List.map_flatMap]
  apply List.flatMap_congr
  intro split hsplit
  rw [mem_splitPositions] at hsplit
  apply List.flatMap_congr
  rintro ⟨⟨left, right⟩, heads⟩ _
  have hjoins : joins known' (constituent.span.move source target) (split + target - source)
      (left, right) = joins known constituent.span split (left, right) := by
    have hleft := hknown ⟨left, ⟨constituent.span.start, split⟩⟩
      ⟨hsource, by simp only; omega, by simp only; omega⟩
    have hright := hknown ⟨right, ⟨split, constituent.span.stop⟩⟩
      ⟨by simp only; omega, by simp only; omega, hstop⟩
    exact congrArg₂ _ hleft hright
  simp only [hjoins]
  split <;> rfl

/-! ## Fillings -/

variable {σ τ : Type} {observer : Observer σ} {state : σ} {progress : Progress σ}
  {observer' : Observer τ} {state' : τ} {progress' : Progress τ}
  (hgrammar : grammar.Indexes (headLabels rules) rules)
  (hfill : grammar.fill observer state tokens = .ok progress)
  (hfill' : grammar.fill observer' state' other = .ok progress')
  (hsame : SameWindow tokens other source target length)

include hgrammar hfill hfill' hsame

theorem cell_move {span : Span} (hspan : span.Inside source length) :
    ∃ symbols, progress.filling.chart.cell span = .ok symbols ∧
      progress'.filling.chart.cell (span.move source target) = .ok symbols := by
  rcases grammar.exists_known tokens with ⟨known, hknown⟩
  rcases grammar.exists_known other with ⟨known', hknown'⟩
  refine ⟨_, cell_of_fill hgrammar hfill hknown (hspan.within hsame.source_le), ?_⟩
  rw [cell_of_fill hgrammar hfill' hknown' (hspan.move.within hsame.target_le)]
  congr 2
  funext symbol
  rw [Bool.eq_iff_iff, hknown, hknown', ← yields_move_iff hsame hspan]
  rfl

theorem evidence_moves :
    progress.filling.evidence.MovesTo source target progress'.filling.evidence length := by
  intro constituent hinside
  rcases grammar.exists_known tokens with ⟨known, hknown⟩
  rcases grammar.exists_known other with ⟨known', hknown'⟩
  have hagree : ∀ part : Constituent, part.span.Inside source length →
      known' (part.move source target) = known part := by
    intro part hpart
    rw [Bool.eq_iff_iff, hknown, hknown', yields_move_iff hsame hpart]
  have hwitnesses : grammar.witnesses known' other (constituent.move source target) =
      (grammar.witnesses known tokens constituent).map (Witness.move source target) := by
    rw [witnesses, witnesses, List.map_append, leafWitnesses_move hsame hinside,
      splitWitnesses_move hagree hinside]
  rw [get?_eq_witnesses hgrammar hfill hknown, get?_eq_witnesses hgrammar hfill' hknown',
    hwitnesses, apply_ite (Option.map _)]
  simp

theorem extract_move (limits : Limits) (constituent : Constituent)
    (hinside : constituent.span.Inside source length) :
    (((Extractor.ofEvidence progress'.filling.evidence).withLimits limits).extract
        (constituent.move source target)).1 =
      Forest.moved source target
        (((Extractor.ofEvidence progress.filling.evidence).withLimits limits).extract
          constituent).1 := by
  rw [Extractor.extract_withLimits, Extractor.extract_withLimits]
  exact Forest.read_move (evidence_moves hgrammar hfill hfill' hsame)
    (Nat.lt_of_le_of_lt hsame.source_le (length_lt_of_fill hgrammar hfill))
    (Nat.lt_of_le_of_lt hsame.target_le (length_lt_of_fill hgrammar hfill')) hinside

end Grammar

end Windows

/--
Two spans over the same tokens, each in an input of its own, have the same symbols in their cells.
Witnesses and trees of a symbol are the same too, at the distance of one span from the other, and
limits cut them alike; what is missing for one is missing for the other.
-/
theorem Grammar.substring_determines_cell {rules : List Production} {compilation : Compilation}
    (hcompile : compile rules = .ok compilation) {tokens other : List String}
    {start stop start' stop' : Nat} (hstart : start < stop) (hstop : stop ≤ tokens.length)
    (hstart' : start' < stop') (hstop' : stop' ≤ other.length)
    (hextract : tokens.extract start stop = other.extract start' stop') :
    (∀ input : List String, compilation.grammar.Admits input.length →
      ∃ progress, compilation.grammar.fill .silent () input = .ok progress) ∧
    ∀ (σ τ : Type) (observer : Observer σ) (observer' : Observer τ) (state : σ) (state' : τ)
      (progress : Progress σ) (progress' : Progress τ),
      compilation.grammar.fill observer state tokens = .ok progress →
      compilation.grammar.fill observer' state' other = .ok progress' →
      (∃ symbols, progress.filling.chart.cell ⟨start, stop⟩ = .ok symbols ∧
        progress'.filling.chart.cell ⟨start', stop'⟩ = .ok symbols) ∧
      (∀ symbol, progress'.filling.evidence.get? ⟨symbol, ⟨start', stop'⟩⟩ =
        (progress.filling.evidence.get? ⟨symbol, ⟨start, stop⟩⟩).map
          (List.map (Witness.move start start'))) ∧
      ∀ limits symbol result,
        (((Extractor.ofEvidence progress.filling.evidence).withLimits limits).extract
          ⟨symbol, ⟨start, stop⟩⟩).1 = result →
        (((Extractor.ofEvidence progress'.filling.evidence).withLimits limits).extract
            ⟨symbol, ⟨start', stop'⟩⟩).1 =
          match result with
          | .ok forest => .ok ⟨forest.trees.map (Tree.move start start'), forest.truncated⟩
          | .error error => .error (error.move start start') := by
  have hgrammar := indexes_of_compile hcompile
  refine ⟨fun input hadmits => exists_fill_silent hgrammar hadmits (), ?_⟩
  intro σ τ observer observer' state state' progress progress' hfill hfill'
  rcases sameWindow_of_extract hstart hstop hstart' hstop' hextract with ⟨rfl, hsame⟩
  have hinside : (⟨start, stop⟩ : Span).Inside start (stop - start) :=
    ⟨Nat.le_refl _, hstart, by simp only; omega⟩
  have hmove : Span.move start start' ⟨start, stop⟩ = ⟨start', start' + (stop - start)⟩ := by
    simp only [Span.move, Span.mk.injEq]
    omega
  rw [← hmove]
  refine ⟨cell_move hgrammar hfill hfill' hsame hinside, ?_, ?_⟩
  · intro symbol
    exact evidence_moves hgrammar hfill hfill' hsame ⟨symbol, ⟨start, stop⟩⟩ hinside
  · rintro limits symbol _ rfl
    exact extract_move hgrammar hfill hfill' hsame limits ⟨symbol, ⟨start, stop⟩⟩ hinside

theorem Grammar.substring_determines_doubling :
    ["b", "a", "a"].extract 1 3 = ["a", "a"].extract 0 2 ∧
    ∃ compilation progress progress', compile doubling = .ok compilation ∧
      compilation.grammar.fill .silent () ["b", "a", "a"] = .ok progress ∧
      compilation.grammar.fill .silent () ["a", "a"] = .ok progress' ∧
      progress.filling.evidence.get? ⟨⟨1, by decide⟩, ⟨1, 3⟩⟩ =
        some [.split 2 ⟨1, by decide⟩ ⟨1, by decide⟩] ∧
      progress'.filling.evidence.get? ⟨⟨1, by decide⟩, ⟨0, 2⟩⟩ =
        some [.split 1 ⟨1, by decide⟩ ⟨1, by decide⟩] := by
  have hrun : (compile doubling >>= fun compilation =>
      compilation.grammar.fill .silent () ["b", "a", "a"] >>= fun progress =>
      compilation.grammar.fill .silent () ["a", "a"] >>= fun _ =>
        .ok (progress.filling.evidence.get? ⟨⟨1, by decide⟩, ⟨1, 3⟩⟩)) =
      .ok (some [.split 2 ⟨1, by decide⟩ ⟨1, by decide⟩]) := by
    decide +kernel
  rcases bind_eq_ok.mp hrun with ⟨compilation, hcompile, hrest⟩
  rcases bind_eq_ok.mp hrest with ⟨progress, hfill, hrest⟩
  rcases bind_eq_ok.mp hrest with ⟨progress', hfill', hvalue⟩
  have hget := Except.ok.inj hvalue
  have hwindow : ["b", "a", "a"].extract 1 3 = ["a", "a"].extract 0 2 := by decide
  have hdetermines := substring_determines_cell hcompile (by decide) (by decide) (by decide)
    (by decide) hwindow
  rcases hdetermines.2 _ _ _ _ _ _ _ _ hfill hfill' with ⟨-, hwitnesses, -⟩
  refine ⟨hwindow, compilation, progress, progress', hcompile, hfill, hfill', hget, ?_⟩
  rw [hwitnesses, hget]
  rfl

end ChartParsing
