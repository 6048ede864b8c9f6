/-!
# Faults and machine words

An operation that cannot go on stops with a `Fault`, which names the cause.
Positions, sizes and counters are natural numbers that have to fit a machine
word; arithmetic that leaves the word, at either end, is a fault as well.
-/

namespace ChartParsing

inductive Fault where
  | emptySpan (start stop : Nat)
  | spanBeyondInput (start stop numTokens : Nat)
  | alternativeBeforeHead
  | overflow
  | underflow
  | outOfRange
  | invalidSymbol
  | splitOutside
  deriving DecidableEq, Repr

def Fault.message? : Fault → Option String
  | .emptySpan start stop => some s!"empty span {start}..{stop}"
  | .spanBeyondInput start stop numTokens =>
      some (s!"span Span \x7b start: {start}, end: {stop} \x7d" ++
        s!" exceeds input of length {numTokens}")
  | .alternativeBeforeHead => some "rule alternative added before its left-hand side"
  | .overflow | .underflow | .outOfRange | .invalidSymbol | .splitOutside => none

namespace Word

/-- The number of different machine words: a word has 64 bits. -/
def limit : Nat := 18446744073709551616

def checked (value : Nat) : Except Fault Nat :=
  if value < limit then .ok value else .error .overflow

def minus (value amount : Nat) : Except Fault Nat :=
  if amount ≤ value then .ok (value - amount) else .error .underflow

theorem checked_of_lt {value : Nat} (h : value < limit) : checked value = .ok value := by
  simp [checked, h]

theorem minus_of_le {value amount : Nat} (h : amount ≤ value) :
    minus value amount = .ok (value - amount) := by
  simp [minus, h]

end Word

end ChartParsing
