import ChartParsing.Witness
import Std.Data.TreeSet

/-!
# Charts

The chart of an input has a cell for every span, which holds the symbols that
derive the span.  It is laid out as one vector of flags: spans give rows, first
by start and then by stop, and a row has a flag for every symbol, padded to a
multiple of 32.  Only the positions of the flags that are up are stored.

The layout shows in one place: inserting does not compare a symbol with the
number of symbols, so a larger one raises a flag in the padding or in a later
row.  Symbols can be added to a cell and are never removed.
-/

namespace ChartParsing

structure Chart where
  numTokens : Nat
  numSymbols : Nat
  raised : Std.TreeSet Nat

namespace Chart

/-- The number of flags in a row: the least multiple of 32 with room for every symbol. -/
def rowWidth (chart : Chart) : Nat := (chart.numSymbols + 31) / 32 * 32

def size (chart : Chart) : Nat := chart.numTokens * chart.numTokens * chart.rowWidth

/--
The chart with empty cells.  Its size has to fit a machine word, and so has the number of symbols
with a whole block of 32 on top, which the width of a row always stays below.
-/
def blank (numTokens numSymbols : Nat) : Except Fault Chart := do
  let chart : Chart := ⟨numTokens, numSymbols, ∅⟩
  let _ ← Word.checked (numTokens * numTokens)
  let _ ← Word.checked (numSymbols + 32)
  let _ ← Word.checked chart.size
  return chart

def fullSpan? (chart : Chart) : Option Span :=
  if chart.numTokens = 0 then none else some ⟨0, chart.numTokens⟩

def row (chart : Chart) (span : Span) : Except Fault Nat :=
  if chart.numTokens < span.stop then
    .error (.spanBeyondInput span.start span.stop chart.numTokens)
  else do
    let base ← Word.checked (span.start * chart.numTokens)
    let offset ← Word.minus span.stop 1
    Word.checked (base + offset)

def position (chart : Chart) (constituent : Constituent) : Except Fault Nat := do
  let row ← chart.row constituent.span
  let position := row * chart.rowWidth + constituent.symbol.id
  if position < chart.size then .ok position else .error .outOfRange

def insert (chart : Chart) (constituent : Constituent) : Except Fault (Bool × Chart) := do
  let position ← chart.position constituent
  if chart.raised.contains position then .ok (false, chart)
  else .ok (true, { chart with raised := chart.raised.insert position })

def contains (chart : Chart) (constituent : Constituent) : Except Fault Bool :=
  if constituent.symbol.id < chart.numSymbols then
    chart.raised.contains <$> chart.position constituent
  else .ok false

/--
The symbols in the cell of a span, by ascending number.  The row of the cell ends where the next
row starts, so the number of that row has to fit a machine word too, even if rows have no flags.
-/
def cell (chart : Chart) (span : Span) : Except Fault (List Symbol) := do
  let row ← chart.row span
  let next ← Word.checked (row + 1)
  if next * chart.rowWidth ≤ chart.size then
    .ok (((List.range chart.numSymbols).filterMap Symbol.ofNat?).filter
      fun symbol => chart.raised.contains (row * chart.rowWidth + symbol.id))
  else .error .outOfRange

def cellSize (chart : Chart) (span : Span) : Except Fault Nat :=
  List.length <$> chart.cell span

def spans (chart : Chart) : List Span :=
  (List.range' 1 chart.numTokens).flatMap fun width =>
    (List.range (chart.numTokens + 1 - width)).map fun start => ⟨start, start + width⟩

def constituents (chart : Chart) : Except Fault (List Constituent) :=
  List.flatten <$> chart.spans.mapM fun span => do
    return (← chart.cell span).map fun symbol => ⟨symbol, span⟩

end Chart

end ChartParsing
