import ChartParsing.Grammar.Basic
import ChartParsing.Text.Quoted

/-!
# Listings

A grammar is listed in a BNF of one rule a line.  The rules with two symbols on
the right come first, in order of their right-hand sides, then those with a
terminal, in order of the terminals.  Terminals are quoted and nonterminals are
not.
-/

namespace ChartParsing.Grammar

def binaryLine (grammar : Grammar) (left right head : Symbol) : Except Fault String := do
  let headLabel ← grammar.label head
  let leftLabel ← grammar.label left
  let rightLabel ← grammar.label right
  return s!"{headLabel} ::= {leftLabel} ~ {rightLabel};\n"

def unaryLine (grammar : Grammar) (terminal head : Symbol) : Except Fault String := do
  let headLabel ← grammar.label head
  let terminalLabel ← grammar.label terminal
  return s!"{headLabel} ::= {Text.quoted terminalLabel};\n"

def terminals (grammar : Grammar) : List Symbol :=
  (grammar.unary.groups.map Prod.fst).mergeSort fun first second => first.code ≤ second.code

/-- The lines of the listing, each with its end of line. -/
def lines (grammar : Grammar) : Except Fault (List String) := do
  let binary ← grammar.binary.groups.mapM fun ((left, right), heads) =>
    heads.mapM (grammar.binaryLine left right)
  let unary ← grammar.terminals.mapM fun terminal =>
    (grammar.unaryHeads terminal).mapM (grammar.unaryLine terminal)
  return binary.flatten ++ unary.flatten

def listing (grammar : Grammar) : Except Fault String :=
  String.join <$> grammar.lines

end ChartParsing.Grammar
