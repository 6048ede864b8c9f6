import ChartParsing.Journal
import ChartParsing.Tree

/-!
# Forests

A forest is a list of trees over one constituent.  The number of trees can be
exponential in the length of the input, so limits may cut the list; a forest
says whether that happened.
-/

namespace ChartParsing

/-- Bounds on the number of trees; `none` is no bound. -/
structure Limits where
  perNode : Option Nat
  total : Option Nat
  deriving DecidableEq, Repr

namespace Limits

def unbounded : Limits := ⟨none, none⟩

/--
The number of trees kept for any node.  The first `k` trees of a node never
need more than `k` trees of a child, so both bounds apply to every node.
-/
def cap (limits : Limits) : Option Nat :=
  match limits.perNode, limits.total with
  | some perNode, some total => some (min perNode total)
  | some bound, none | none, some bound => some bound
  | none, none => none

end Limits

structure Forest where
  trees : List Tree
  truncated : Bool
  deriving DecidableEq, Repr

namespace Forest

def empty : Forest := ⟨[], false⟩

instance : EmptyCollection Forest := ⟨empty⟩

def isFull (forest : Forest) (cap : Option Nat) : Bool :=
  cap.any (· ≤ forest.trees.length)

def summary (forest : Forest) (span : Span) : Entry :=
  ⟨.debug, s!"extracted {forest.trees.length} trees at span {span.text}" ++
    if forest.truncated then " (truncated)" else ""⟩

/-! ## Trees over two parts -/

def product (root : Constituent) (lefts rights : List Tree) : List Tree :=
  lefts.flatMap fun left => rights.map (Tree.branch root left)

/-- The first trees of the product, at most `room` of them; no others are made. -/
def productUpTo (root : Constituent) (rights : List Tree) : Nat → List Tree → List Tree
  | 0, _ => []
  | _, [] => []
  | room, left :: lefts =>
      let row := (rights.take room).map (Tree.branch root left)
      row ++ productUpTo root rights (room - row.length) lefts

theorem productUpTo_eq_take (root : Constituent) (rights : List Tree) (room : Nat)
    (lefts : List Tree) :
    productUpTo root rights room lefts = (product root lefts rights).take room := by
  induction lefts generalizing room with
  | nil => cases room <;> simp [productUpTo, product]
  | cons left lefts ih =>
      cases room with
      | zero => simp [productUpTo]
      | succ room =>
          simp only [product] at ih
          simp only [productUpTo, product, List.flatMap_cons, List.take_append, List.map_take, ih]
          congr 2
          simp only [List.length_take, List.length_map]
          omega

def grow (forest : Forest) (cap : Option Nat) (root : Constituent) (lefts rights : Forest) :
    Forest :=
  let truncated := forest.truncated || lefts.truncated || rights.truncated
  match cap with
  | none => ⟨forest.trees ++ product root lefts.trees rights.trees, truncated⟩
  | some cap =>
      let room := cap - forest.trees.length
      ⟨forest.trees ++ productUpTo root rights.trees room lefts.trees,
        truncated || room < lefts.trees.length * rights.trees.length⟩

end Forest

end ChartParsing
