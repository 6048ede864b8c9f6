/-!
# Counts of the work

What it takes to fill a chart is counted in witnesses, a step for each, and in
combinations, one for each pair of symbols tried at a split of a span.
-/

namespace ChartParsing

structure Stats where
  steps : Nat
  combinations : Nat
  deriving DecidableEq, Repr

structure Completion where
  numTokens : Nat
  stats : Stats
  numWitnesses : Nat
  deriving DecidableEq, Repr

end ChartParsing
