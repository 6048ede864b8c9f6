import ChartParsing.Fault

/-!
# Spans

A span is a stretch of the input: the tokens from `start` up to, and not
including, `stop`.  Spans are plain pairs of positions.  `Span.between` makes
only nonempty ones, and the other operations say themselves what they need.
-/

namespace ChartParsing

/-- The tokens at the positions from `start` to before `stop`. -/
structure Span where
  start : Nat
  stop : Nat
  deriving DecidableEq, Repr

namespace Span

def between (start stop : Nat) : Except Fault Span :=
  if start < stop then .ok ⟨start, stop⟩ else .error (.emptySpan start stop)

def token (position : Nat) : Except Fault Span := do
  between position (← Word.checked (position + 1))

def width (span : Span) : Nat := span.stop - span.start

def length (span : Span) : Except Fault Nat := Word.minus span.stop span.start

def isToken (span : Span) : Except Fault Bool := (· == 1) <$> span.length

def splitAt (span : Span) (split : Nat) : Except Fault (Span × Span) :=
  if span.start < split ∧ split < span.stop then .ok (⟨span.start, split⟩, ⟨split, span.stop⟩)
  else .error .splitOutside

def splitBounds (span : Span) : Except Fault (Nat × Nat) := do
  return (← Word.checked (span.start + 1), span.stop)

def splits (span : Span) : Except Fault (List Nat) := do
  let (first, stop) ← span.splitBounds
  return List.range' first (stop - first)

def text (span : Span) : String := s!"({span.start}, {span.stop})"

instance : Ord Span := ⟨compareLex (compareOn start) (compareOn stop)⟩

instance : Std.TransOrd Span :=
  inferInstanceAs (Std.TransCmp (compareLex (compareOn start) (compareOn stop)))

instance : Std.LawfulEqOrd Span where
  eq_of_compare {first second} h := by
    have hboth := compareLex_eq_eq.mp
      (show compareLex (compareOn start) (compareOn stop) first second = .eq from h)
    have hstart : first.start = second.start := Std.LawfulEqCmp.eq_of_compare
      (show compare first.start second.start = .eq from hboth.1)
    have hstop : first.stop = second.stop := Std.LawfulEqCmp.eq_of_compare
      (show compare first.stop second.stop = .eq from hboth.2)
    cases first
    cases second
    simp_all

end Span

end ChartParsing
