import ChartParsing.SymbolTable

/-!
# Symbol sets

A symbol set has room for the symbols below its capacity and says of each
whether it is a member.  Asking for a symbol without room answers no; making
such a symbol a member, or no member, is a fault.
-/

namespace ChartParsing

structure SymbolSet where
  flags : Array Bool
  deriving DecidableEq, Repr

namespace SymbolSet

def empty : SymbolSet := ⟨#[]⟩

instance : EmptyCollection SymbolSet := ⟨empty⟩

def capacity (set : SymbolSet) : Nat := set.flags.size

def contains (set : SymbolSet) (symbol : Symbol) : Bool :=
  set.flags[symbol.id]?.getD false

def assign (set : SymbolSet) (symbol : Symbol) (member : Bool) : Except Fault SymbolSet :=
  if h : symbol.id < set.flags.size then .ok ⟨set.flags.set symbol.id member h⟩
  else .error .outOfRange

/-- Makes room for every symbol of a table; members stay, and room is never given up. -/
def reserve (set : SymbolSet) (table : SymbolTable) : SymbolSet :=
  ⟨set.flags ++ Array.replicate (table.size - set.capacity) false⟩

def ofLabels (table : SymbolTable) (labels : List String) : Except Fault SymbolSet :=
  (labels.filterMap table.symbol?).foldlM (fun set symbol => set.assign symbol true)
    (empty.reserve table)

def members (set : SymbolSet) : List Symbol :=
  ((List.range set.capacity).filterMap Symbol.ofNat?).filter set.contains

end SymbolSet

end ChartParsing
