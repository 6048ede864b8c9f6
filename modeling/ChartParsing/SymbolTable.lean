import ChartParsing.Symbol
import Std.Data.TreeMap

/-!
# Symbol tables

A symbol table gives every label its symbol.  Symbols are handed out in the
order in which labels are first seen, starting with number zero, and a label
that is seen again keeps the symbol it has.
-/

namespace ChartParsing

structure SymbolTable where
  next : UInt32
  labels : Array String
  symbols : Std.TreeMap String Symbol

namespace SymbolTable

def empty : SymbolTable := ⟨0, #[], ∅⟩

instance : EmptyCollection SymbolTable := ⟨empty⟩

def size (table : SymbolTable) : Nat := table.next.toNat

def symbol? (table : SymbolTable) (label : String) : Option Symbol :=
  table.symbols[label]?

def label (table : SymbolTable) (symbol : Symbol) : Except Fault String :=
  match table.labels[symbol.id]? with
  | some label => .ok label
  | none => .error .outOfRange

/--
The symbol of a label, which the table now holds.  The largest symbol number
is never handed out, so that the size of a table is itself a symbol number.
-/
def intern (table : SymbolTable) (label : String) : Except Fault (Symbol × SymbolTable) :=
  match table.symbol? label with
  | some symbol => .ok (symbol, table)
  | none => do
      let symbol ← Symbol.ofNumber table.next
      let next := table.next + 1
      if next.toNat = Symbol.limit then .error .invalidSymbol
      else return (symbol, ⟨next, table.labels.push label, table.symbols.insert label symbol⟩)

def internAll (table : SymbolTable) (labels : List String) : Except Fault SymbolTable :=
  labels.foldlM (fun table label => Prod.snd <$> table.intern label) table

end SymbolTable

end ChartParsing
