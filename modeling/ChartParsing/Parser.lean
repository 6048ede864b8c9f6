import ChartParsing.Filling
import ChartParsing.Forest.Extraction
import ChartParsing.Grammar.Compilation

/-!
# Recognising and parsing

A parser asks of an input whether the start label derives it, and in which
ways.  A start label that is no nonterminal is reported, and then no input is
accepted.
-/

namespace ChartParsing

structure Parser where
  grammar : Grammar
  startLabel : String
  limits : Limits

structure Verdict (σ : Type) where
  accepted : Bool
  filling : Filling
  diagnostics : List Diagnostic
  state : σ

structure Recognition where
  accepted : Bool
  stats : Stats
  diagnostics : List Diagnostic
  deriving DecidableEq, Repr

structure Outcome (σ : Type) where
  verdict : Verdict σ
  forest : Forest

namespace Verdict

variable {σ : Type}

def recognition (verdict : Verdict σ) : Recognition :=
  ⟨verdict.accepted, verdict.filling.stats, verdict.diagnostics⟩

def summary (verdict : Verdict σ) : Entry :=
  ⟨.debug, (if verdict.accepted then "accepted" else "rejected") ++
    s!" {verdict.filling.chart.numTokens} tokens in {verdict.filling.stats.steps} steps"⟩

end Verdict

def Outcome.closing {σ : Type} (outcome : Outcome σ) : Journal :=
  let trees :=
    if outcome.verdict.accepted then
      outcome.verdict.filling.chart.fullSpan?.toArray.map outcome.forest.summary
    else #[]
  #[outcome.verdict.summary] ++ trees

namespace Parser

variable {σ : Type}

def start? (parser : Parser) : Option Symbol :=
  parser.grammar.nonterminal? parser.startLabel

def startDiagnostics (parser : Parser) : List Diagnostic :=
  match parser.start? with
  | some _ => []
  | none => [.unknownStart parser.startLabel]

def judge (parser : Parser) (observer : Observer σ) (state : σ) (tokens : List String) :
    Except Fault (Verdict σ) := do
  let ⟨filling, state⟩ ← parser.grammar.fill observer state tokens
  let accepted ←
    match parser.start? with
    | some start => filling.accepts start
    | none => pure false
  let diagnostics := parser.startDiagnostics ++ filling.diagnostics
  return ⟨accepted, { filling with diagnostics := [] }, diagnostics, state⟩

def recognize (parser : Parser) (tokens : List String) : Except Fault Recognition :=
  Verdict.recognition <$> parser.judge Observer.silent () tokens

def recognizeInto (parser : Parser) (journal : Journal) (tokens : List String) :
    Except Fault (Recognition × Journal) := do
  let verdict ← parser.judge Observer.warnings journal tokens
  return (verdict.recognition, verdict.state.push verdict.summary)

def trees (parser : Parser) (verdict : Verdict σ) : Except ExtractionError Forest :=
  match verdict.accepted, parser.start?, verdict.filling.chart.fullSpan? with
  | true, some start, some span =>
      (((Extractor.ofEvidence verdict.filling.evidence).withLimits parser.limits).extract
        ⟨start, span⟩).1
  | _, _, _ => .ok ∅

def parse (parser : Parser) (observer : Observer σ) (state : σ) (tokens : List String) :
    Except ExtractionError (Outcome σ) := do
  let verdict ← (parser.judge observer state tokens).mapError ExtractionError.fault
  return ⟨verdict, ← parser.trees verdict⟩

end Parser

end ChartParsing
