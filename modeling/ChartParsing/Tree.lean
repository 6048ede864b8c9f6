import ChartParsing.Grammar.Basic
import ChartParsing.Witness

/-!
# Trees

A tree has a symbol and a span at every node.  The nodes without children are
its leaves; in a tree read from a chart they are the terminals.  Trees of any
shape can be built, and all functions here take them.
-/

namespace ChartParsing

structure Tree where
  symbol : Symbol
  span : Span
  children : List Tree
  deriving Repr

namespace Tree

mutual

def decEq : (first second : Tree) → Decidable (first = second)
  | ⟨firstSymbol, firstSpan, firstChildren⟩, ⟨secondSymbol, secondSpan, secondChildren⟩ =>
      if hsymbol : firstSymbol = secondSymbol then
        if hspan : firstSpan = secondSpan then
          match decEqAll firstChildren secondChildren with
          | isTrue hchildren => isTrue (by rw [hsymbol, hspan, hchildren])
          | isFalse hchildren => isFalse (by simp [hchildren])
        else isFalse (by simp [hspan])
      else isFalse (by simp [hsymbol])

def decEqAll : (first second : List Tree) → Decidable (first = second)
  | [], [] => isTrue rfl
  | [], _ :: _ => isFalse (by simp)
  | _ :: _, [] => isFalse (by simp)
  | first :: firsts, second :: seconds =>
      match decEq first second with
      | isTrue htree =>
          match decEqAll firsts seconds with
          | isTrue hrest => isTrue (by rw [htree, hrest])
          | isFalse hrest => isFalse (by simp [hrest])
      | isFalse htree => isFalse (by simp [htree])

end

instance : DecidableEq Tree := decEq

def leaf (terminal : Symbol) (position : Nat) : Except Fault Tree := do
  return ⟨terminal, ← Span.token position, []⟩

def branch (constituent : Constituent) (left right : Tree) : Tree :=
  ⟨constituent.symbol, constituent.span, [left, right]⟩

def isLeaf (tree : Tree) : Bool := tree.children.isEmpty

mutual

def numNodes : Tree → Nat
  | ⟨_, _, children⟩ => 1 + numNodesAll children

def numNodesAll : List Tree → Nat
  | [] => 0
  | tree :: trees => numNodes tree + numNodesAll trees

end

theorem numNodesAll_append (first second : List Tree) :
    numNodesAll (first ++ second) = numNodesAll first + numNodesAll second := by
  induction first with
  | nil => simp [numNodesAll]
  | cons tree trees ih => simp [numNodesAll, ih, Nat.add_assoc]

/-- The leaves of the trees on a stack: the top is put down if it is a leaf, else opened. -/
def drain : List Tree → List Symbol
  | [] => []
  | ⟨symbol, _, []⟩ :: rest => symbol :: drain rest
  | ⟨_, _, child :: children⟩ :: rest => drain (child :: children ++ rest)
termination_by stack => numNodesAll stack
decreasing_by
  · simp [numNodesAll, numNodes]
  · rw [numNodesAll_append]
    simp [numNodesAll, numNodes]

def leaves (tree : Tree) : List Symbol := drain [tree]

mutual

/--
The tree in brackets, with the labels of a grammar: a leaf is its label, and
another node is its label and its children in parentheses.
-/
def text (grammar : Grammar) : Tree → Except Fault String
  | ⟨symbol, _, []⟩ => grammar.label symbol
  | ⟨symbol, _, child :: children⟩ => do
      let label ← grammar.label symbol
      let inner ← textAll grammar (child :: children)
      return s!"({label}{inner})"

def textAll (grammar : Grammar) : List Tree → Except Fault String
  | [] => .ok ""
  | tree :: trees => do
      let first ← text grammar tree
      let rest ← textAll grammar trees
      return s!" {first}{rest}"

end

end Tree

end ChartParsing
