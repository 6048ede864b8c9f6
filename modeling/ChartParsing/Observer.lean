import ChartParsing.Grammar.Basic
import ChartParsing.Journal
import ChartParsing.Stats
import ChartParsing.Text.Quoted
import ChartParsing.Witness

/-!
# Observing how a chart is filled

While a chart is filled, events are announced to an observer, which keeps a
state of its own.  An observer can stop the work with a fault and cannot change
it in any other way.
-/

namespace ChartParsing

inductive Event where
  | entered (constituent : Constituent)
  | witnessed (constituent : Constituent) (witness : Witness)
  | unknown (position : Nat) (token : String)
  deriving DecidableEq, Repr

/-- A way to keep a state of type `σ` through the events of a run. -/
structure Observer (σ : Type) where
  notify : σ → Event → Except Fault σ
  close : σ → Completion → Except Fault σ

namespace Observer

variable {σ τ : Type}

def silent : Observer σ := ⟨fun state _ => .ok state, fun state _ => .ok state⟩

def recorder : Observer (Array Event) :=
  ⟨fun events event => .ok (events.push event), fun events _ => .ok events⟩

def both (first : Observer σ) (second : Observer τ) : Observer (σ × τ) where
  notify state event := return (← first.notify state.1 event, ← second.notify state.2 event)
  close state completion :=
    return (← first.close state.1 completion, ← second.close state.2 completion)

def andThen (first second : Observer σ) : Observer σ where
  notify state event := do second.notify (← first.notify state event) event
  close state completion := do second.close (← first.close state completion) completion

end Observer

/-! ## Journals of a run -/

def Completion.entry (completion : Completion) : Entry :=
  ⟨.debug, s!"filled chart for {completion.numTokens} tokens: {completion.stats.steps} steps, " ++
    s!"{completion.stats.combinations} combinations, {completion.numWitnesses} witnesses"⟩

def Event.warning? : Event → Option Entry
  | .unknown position token =>
      some ⟨.warn, s!"unknown token {Text.quoted token} at position {position}"⟩
  | .entered _ | .witnessed .. => none

def Grammar.witnessText (grammar : Grammar) (constituent : Constituent) :
    Witness → Except Fault String
  | .leaf terminal => do
      let head ← grammar.label constituent.symbol
      let token ← grammar.label terminal
      return s!"witness {head}{constituent.span.text} -> {Text.quoted token}"
  | .split position left right => do
      let head ← grammar.label constituent.symbol
      let leftLabel ← grammar.label left
      let rightLabel ← grammar.label right
      let leftSpan : Span := ⟨constituent.span.start, position⟩
      let rightSpan : Span := ⟨position, constituent.span.stop⟩
      return s!"witness {head}{constituent.span.text} -> " ++
        s!"{leftLabel}{leftSpan.text} {rightLabel}{rightSpan.text}"

def Grammar.eventText (grammar : Grammar) : Event → Except Fault String
  | .entered constituent => do
      let label ← grammar.label constituent.symbol
      return s!"cell {constituent.span.text} += {label}"
  | .witnessed constituent witness => grammar.witnessText constituent witness
  | .unknown position token =>
      return s!"unknown token {Text.quoted token} at {position}"

namespace Observer

def warnings : Observer Journal where
  notify journal event := .ok (journal ++ event.warning?.toArray)
  close journal completion := .ok (journal.push completion.entry)

def tracer (grammar : Grammar) : Observer Journal where
  notify journal event := do return journal.push ⟨.trace, ← grammar.eventText event⟩
  close journal _ := .ok journal

end Observer

end ChartParsing
