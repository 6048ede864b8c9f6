import ChartParsing.Grouping
import ChartParsing.SymbolSet

/-!
# Grammars in Chomsky normal form

A grammar holds its rules by their right-hand sides: for a terminal, the
nonterminals that expand to it; for a pair of nonterminals, the nonterminals
that expand to the pair.  The pairs stand in an array, in order of first
appearance, and are looked up by their places in it.  Rules are counted as they
are added.
-/

namespace ChartParsing

/-- A context-free grammar in Chomsky normal form, indexed by right-hand sides. -/
structure Grammar where
  symbols : SymbolTable
  nonterminals : SymbolSet
  unary : Grouping Symbol Symbol
  binary : IndexedGrouping (Symbol × Symbol) Symbol
  numUnaryRules : Nat
  numBinaryRules : Nat

namespace Grammar

def numSymbols (grammar : Grammar) : Nat := grammar.symbols.size

def symbol? (grammar : Grammar) (label : String) : Option Symbol :=
  grammar.symbols.symbol? label

def label (grammar : Grammar) (symbol : Symbol) : Except Fault String :=
  grammar.symbols.label symbol

def isNonterminal (grammar : Grammar) (symbol : Symbol) : Bool :=
  grammar.nonterminals.contains symbol

def nonterminal? (grammar : Grammar) (label : String) : Option Symbol :=
  (grammar.symbol? label).filter grammar.isNonterminal

def unaryHeads (grammar : Grammar) (terminal : Symbol) : List Symbol :=
  grammar.unary.members terminal

def binaryHeads (grammar : Grammar) (left right : Symbol) : Except Fault (List Symbol) :=
  grammar.binary.members (left, right)

def analyse? (grammar : Grammar) (token : String) : Option (Symbol × List Symbol) :=
  match grammar.symbol? token with
  | none => none
  | some terminal =>
      match grammar.unaryHeads terminal with
      | [] => none
      | heads => some (terminal, heads)

end Grammar

end ChartParsing
