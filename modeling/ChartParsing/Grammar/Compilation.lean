import ChartParsing.Diagnostic
import ChartParsing.Grammar.Basic
import ChartParsing.Journal

/-!
# Compiling productions

A label is a nonterminal if it stands on the left of some production, whichever
comes first.  So all left-hand sides get their symbols before any production is
looked at.  Then the productions are taken in order: one that is in Chomsky
normal form joins the grammar, one that repeats a rule is passed over, and one
that is neither is dropped and reported.
-/

namespace ChartParsing

inductive Notice where
  | repeated (rule : Production)
  | dropped (rule : Production) (violation : Violation)
  deriving DecidableEq, Repr

namespace Notice

def entry : Notice → Entry
  | .repeated rule => ⟨.debug, s!"ignoring duplicate rule `{rule.text}`"⟩
  | .dropped rule violation => ⟨.warn, s!"dropping rule `{rule.text}`: {violation.text}"⟩

def diagnostic? : Notice → Option Diagnostic
  | .repeated _ => none
  | .dropped rule violation => some (.dropped rule violation)

end Notice

namespace Grammar

/-- The grammar without rules whose nonterminals are the given labels. -/
def ofHeads (heads : List String) : Except Fault Grammar := do
  let symbols ← SymbolTable.empty.internAll heads
  let nonterminals ← SymbolSet.ofLabels symbols heads
  return ⟨symbols, nonterminals, ∅, ∅, 0, 0⟩

def addUnary (grammar : Grammar) (head : Symbol) (label : String) (rule : Production) :
    Except Fault (Grammar × Option Notice) :=
  match grammar.nonterminal? label with
  | some _ => .ok (grammar, some (.dropped rule .loneNonterminal))
  | none => do
      let (terminal, symbols) ← grammar.symbols.intern label
      match grammar.unary.insert? terminal head with
      | some unary =>
          let numUnaryRules ← Word.checked (grammar.numUnaryRules + 1)
          return ({ grammar with symbols, unary, numUnaryRules }, none)
      | none => return ({ grammar with symbols }, some (.repeated rule))

def addBinary (grammar : Grammar) (head : Symbol) (left right : String) (rule : Production) :
    Except Fault (Grammar × Option Notice) :=
  match grammar.nonterminal? left, grammar.nonterminal? right with
  | some left, some right => do
      let (new, binary) ← grammar.binary.insert (left, right) head
      if new then
        let numBinaryRules ← Word.checked (grammar.numBinaryRules + 1)
        return ({ grammar with binary, numBinaryRules }, none)
      else return ({ grammar with binary }, some (.repeated rule))
  | _, _ => .ok (grammar, some (.dropped rule .mixedPair))

/-- Adds the rule of a production, or says why there is none to add. -/
def add (grammar : Grammar) (rule : Production) : Except Fault (Grammar × Option Notice) := do
  let (head, symbols) ← grammar.symbols.intern rule.lhs
  let grammar := { grammar with symbols }
  match rule.rhs with
  | [label] => grammar.addUnary head label rule
  | [left, right] => grammar.addBinary head left right rule
  | rhs => return (grammar, some (.dropped rule (.wrongLength rhs.length)))

end Grammar

structure Compilation where
  grammar : Grammar
  notices : Array Notice

namespace Compilation

/-- Takes one more production. -/
def add (compilation : Compilation) (rule : Production) : Except Fault Compilation := do
  let (grammar, notice) ← compilation.grammar.add rule
  return ⟨grammar, compilation.notices ++ notice.toArray⟩

def diagnostics (compilation : Compilation) : List Diagnostic :=
  compilation.notices.toList.filterMap Notice.diagnostic?

def summary (compilation : Compilation) : Entry :=
  ⟨.debug, s!"compiled grammar with {compilation.grammar.numUnaryRules} unary and " ++
    s!"{compilation.grammar.numBinaryRules} binary rules, " ++
    s!"{compilation.diagnostics.length} dropped"⟩

def journal (compilation : Compilation) : Journal :=
  (compilation.notices.map Notice.entry).push compilation.summary

end Compilation

def Grammar.compile (rules : List Production) : Except Fault Compilation := do
  let bare ← ofHeads (rules.map Production.lhs)
  let ⟨grammar, notices⟩ ← rules.foldlM Compilation.add ⟨bare, #[]⟩
  let nonterminals := grammar.nonterminals.reserve grammar.symbols
  return ⟨{ grammar with nonterminals }, notices⟩

end ChartParsing
