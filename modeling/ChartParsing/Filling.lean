import ChartParsing.Chart
import ChartParsing.Diagnostic
import ChartParsing.Observer

/-!
# Filling a chart

Tokens come first, from left to right.  Then the spans are filled layer by
layer, the spans of one width together and narrower ones before wider ones.
The cells of a layer are found from the chart as it was before the layer, and
only then added to it, in order of their starts.  That is enough, because a
cell depends on narrower spans alone.
-/

namespace ChartParsing

structure Filling where
  chart : Chart
  evidence : Evidence
  stats : Stats
  diagnostics : List Diagnostic

namespace Filling

def ofChart (chart : Chart) : Filling := ⟨chart, ∅, ⟨0, 0⟩, []⟩

def accepts (filling : Filling) (start : Symbol) : Except Fault Bool :=
  match filling.chart.fullSpan? with
  | some span => filling.chart.contains ⟨start, span⟩
  | none => .ok false

def completion (filling : Filling) : Completion :=
  ⟨filling.chart.numTokens, filling.stats, filling.evidence.numWitnesses⟩

end Filling

/-! ## What a cell gets -/

structure Findings where
  span : Span
  entries : Array (Symbol × Witness)
  combinations : Nat
  deriving DecidableEq, Repr

namespace Findings

def empty (span : Span) : Findings := ⟨span, #[], 0⟩

/--
Tries one pair of symbols at one split of the span.  If the two parts are in
the chart, every nonterminal that expands to the pair gets a witness.
-/
def tryPair (chart : Chart) (split : Nat) (leftSpan rightSpan : Span) (findings : Findings)
    (group : (Symbol × Symbol) × List Symbol) : Except Fault Findings := do
  let ((left, right), heads) := group
  let combinations ← Word.checked (findings.combinations + 1)
  let hasLeft ← chart.contains ⟨left, leftSpan⟩
  let hasBoth ← if hasLeft then chart.contains ⟨right, rightSpan⟩ else pure false
  let found := if hasBoth then heads.map fun head => (head, Witness.split split left right) else []
  return { findings with entries := findings.entries ++ found, combinations }

end Findings

namespace Grammar

def searchSplit (grammar : Grammar) (chart : Chart) (findings : Findings) (split : Nat) :
    Except Fault Findings := do
  let (leftSpan, rightSpan) ← findings.span.splitAt split
  grammar.binary.groups.foldlM (Findings.tryPair chart split leftSpan rightSpan) findings

def searchSpan (grammar : Grammar) (chart : Chart) (span : Span) : Except Fault Findings := do
  (← span.splits).foldlM (grammar.searchSplit chart) (.empty span)

def searchLayer (grammar : Grammar) (chart : Chart) (width : Nat) :
    Except Fault (List Findings) := do
  let numStarts ← Word.checked ((← Word.minus chart.numTokens width) + 1)
  (List.range numStarts).mapM fun start => do
    let stop ← Word.checked (start + width)
    grammar.searchSpan chart (← Span.between start stop)

end Grammar

/-! ## Adding to the chart -/

structure Progress (σ : Type) where
  filling : Filling
  state : σ

namespace Progress

variable {σ : Type}

def add (observer : Observer σ) (progress : Progress σ) (constituent : Constituent)
    (witness : Witness) : Except Fault (Progress σ) := do
  let ⟨filling, state⟩ := progress
  let (absent, chart) ← filling.chart.insert constituent
  let state ← if absent then observer.notify state (.entered constituent) else pure state
  let evidence ← filling.evidence.record constituent witness
  let state ← observer.notify state (.witnessed constituent witness)
  let steps ← Word.checked (filling.stats.steps + 1)
  return ⟨{ filling with chart, evidence, stats := { filling.stats with steps } }, state⟩

def addFindings (observer : Observer σ) (progress : Progress σ) (findings : Findings) :
    Except Fault (Progress σ) := do
  let ⟨filling, state⟩ := progress
  let combinations ← Word.checked (filling.stats.combinations + findings.combinations)
  let filling := { filling with stats := { filling.stats with combinations } }
  findings.entries.toList.foldlM
    (fun progress (symbol, witness) => progress.add observer ⟨symbol, findings.span⟩ witness)
    ⟨filling, state⟩

def addUnknown (observer : Observer σ) (progress : Progress σ) (position : Nat)
    (token : String) : Except Fault (Progress σ) := do
  let ⟨filling, state⟩ := progress
  let state ← observer.notify state (.unknown position token)
  let diagnostics := filling.diagnostics ++ [.unknownToken position token]
  return ⟨{ filling with diagnostics }, state⟩

end Progress

namespace Grammar

variable {σ : Type}

def addToken (grammar : Grammar) (observer : Observer σ) (progress : Progress σ)
    (token : String) (position : Nat) : Except Fault (Progress σ) := do
  let span ← Span.token position
  match grammar.analyse? token with
  | some (terminal, heads) =>
      heads.foldlM
        (fun progress head => progress.add observer ⟨head, span⟩ (.leaf terminal)) progress
  | none => progress.addUnknown observer position token

def addLayer (grammar : Grammar) (observer : Observer σ) (progress : Progress σ)
    (width : Nat) : Except Fault (Progress σ) := do
  let layer ← grammar.searchLayer progress.filling.chart width
  layer.foldlM (fun progress findings => progress.addFindings observer findings) progress

def fillTokens (grammar : Grammar) (observer : Observer σ) (state : σ) (tokens : List String) :
    Except Fault (Progress σ) := do
  let chart ← Chart.blank tokens.length grammar.numSymbols
  tokens.zipIdx.foldlM
    (fun progress (token, position) => grammar.addToken observer progress token position)
    ⟨.ofChart chart, state⟩

/-- The run up to where the spans below a width are filled. -/
def fillBelow (grammar : Grammar) (observer : Observer σ) (state : σ) (tokens : List String)
    (width : Nat) : Except Fault (Progress σ) := do
  let progress ← grammar.fillTokens observer state tokens
  (List.range' 2 (width - 2)).foldlM (grammar.addLayer observer) progress

def fill (grammar : Grammar) (observer : Observer σ) (state : σ) (tokens : List String) :
    Except Fault (Progress σ) := do
  let ⟨filling, state⟩ ← grammar.fillBelow observer state tokens (tokens.length + 1)
  return ⟨filling, ← observer.close state filling.completion⟩

def fillAll (grammar : Grammar) (observer : Observer σ) (state : σ) :
    List (List String) → Except Fault (List Filling × σ)
  | [] => .ok ([], state)
  | tokens :: inputs => do
      let ⟨filling, state⟩ ← grammar.fill observer state tokens
      let (fillings, state) ← grammar.fillAll observer state inputs
      return (filling :: fillings, state)

end Grammar

end ChartParsing
