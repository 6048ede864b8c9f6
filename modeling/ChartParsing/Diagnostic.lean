import ChartParsing.Production

/-!
# Diagnostics

Problems in a grammar or an input that do not stop the work: they are
collected, in the order in which they are met, beside the result.  A production
out of normal form is dropped, a token that no production expands to adds
nothing to a chart, and from a start label that is no nonterminal nothing is
derived.
-/

namespace ChartParsing

/-- The way in which a production is not in Chomsky normal form. -/
inductive Violation where
  | loneNonterminal
  | mixedPair
  | wrongLength (length : Nat)
  deriving DecidableEq, Repr

def Violation.text : Violation → String
  | .loneNonterminal => "has a single RHS symbol, which is not a terminal symbol"
  | .mixedPair => "has two RHS symbols, which are not both nonterminal"
  | .wrongLength 0 => "has an empty RHS"
  | .wrongLength length => s!"has {length} RHS symbols, more than two"

inductive Diagnostic where
  | dropped (rule : Production) (violation : Violation)
  | unknownToken (position : Nat) (token : String)
  | unknownStart (label : String)
  deriving DecidableEq, Repr

namespace Diagnostic

def isViolation : Diagnostic → Bool
  | .dropped .. => true
  | .unknownToken .. | .unknownStart .. => false

def text : Diagnostic → String
  | .dropped rule violation => s!"rule `{rule.text}` {violation.text}"
  | .unknownToken position token => s!"unknown token `{token}` at position {position}"
  | .unknownStart label => s!"start symbol `{label}` is not a nonterminal"

end Diagnostic

end ChartParsing
