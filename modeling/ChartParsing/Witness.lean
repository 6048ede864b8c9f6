import ChartParsing.Symbol
import ChartParsing.Span
import Std.Data.TreeMap

/-!
# Constituents, witnesses and evidence

A constituent is a symbol over a span.  A witness says why the symbol derives
the span: it expands to the one token there, or to two symbols whose spans
meet at a split position.  Evidence keeps every witness recorded for a
constituent, in the order of recording, so that an ambiguous input can be read
back in full.
-/

namespace ChartParsing

structure Constituent where
  symbol : Symbol
  span : Span
  deriving DecidableEq, Repr

namespace Constituent

instance : Ord Constituent := ⟨compareLex (compareOn symbol) (compareOn span)⟩

instance : Std.TransOrd Constituent :=
  inferInstanceAs (Std.TransCmp (compareLex (compareOn symbol) (compareOn span)))

instance : Std.LawfulEqOrd Constituent where
  eq_of_compare {first second} h := by
    have hboth := compareLex_eq_eq.mp
      (show compareLex (compareOn symbol) (compareOn span) first second = .eq from h)
    have hsymbol : first.symbol = second.symbol := Std.LawfulEqCmp.eq_of_compare
      (show compare first.symbol second.symbol = .eq from hboth.1)
    have hspan : first.span = second.span := Std.LawfulEqCmp.eq_of_compare
      (show compare first.span second.span = .eq from hboth.2)
    cases first
    cases second
    simp_all

end Constituent

/-- Why a symbol derives a span. -/
inductive Witness where
  | leaf (terminal : Symbol)
  | split (position : Nat) (left right : Symbol)
  deriving DecidableEq, Repr

def Witness.parts (witness : Witness) (span : Span) :
    Except Fault (Option (Constituent × Constituent)) :=
  match witness with
  | .leaf _ => .ok none
  | .split position left right => do
      let (leftSpan, rightSpan) ← span.splitAt position
      return some (⟨left, leftSpan⟩, ⟨right, rightSpan⟩)

theorem Witness.width_lt_of_parts {witness : Witness} {span : Span} {left right : Constituent}
    (h : witness.parts span = .ok (some (left, right))) :
    left.span.width < span.width ∧ right.span.width < span.width := by
  cases witness with
  | leaf terminal => simp [Witness.parts] at h
  | split position leftSymbol rightSymbol =>
      by_cases hinside : span.start < position ∧ position < span.stop
      · simp only [Witness.parts, Span.splitAt, if_pos hinside] at h
        cases h
        simp only [Span.width]
        omega
      · simp only [Witness.parts, Span.splitAt, if_neg hinside] at h
        cases h

structure Evidence where
  witnesses : Std.TreeMap Constituent (List Witness)
  numWitnesses : Nat

namespace Evidence

def empty : Evidence := ⟨∅, 0⟩

instance : EmptyCollection Evidence := ⟨empty⟩

def get? (evidence : Evidence) (constituent : Constituent) : Option (List Witness) :=
  evidence.witnesses[constituent]?

def record (evidence : Evidence) (constituent : Constituent) (witness : Witness) :
    Except Fault Evidence := do
  let witnesses := evidence.witnesses.insert constituent
    ((evidence.get? constituent).getD [] ++ [witness])
  let numWitnesses ← Word.checked (evidence.numWitnesses + 1)
  return ⟨witnesses, numWitnesses⟩

def numConstituents (evidence : Evidence) : Nat := evidence.witnesses.size

def isEmpty (evidence : Evidence) : Bool := evidence.numWitnesses == 0

end Evidence

end ChartParsing
