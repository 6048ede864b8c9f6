import ChartParsing.Forest.Basic

/-!
# Reading trees from evidence

The trees of a constituent are read from its witnesses, in order: over a token
the first witness gives the only tree, and over a longer span each witness
gives a node over every pair of trees of its two parts.  Parts are narrower
than the whole, so reading ends.

Evidence need not come from a chart.  If a constituent has no witness, or one
that does not fit its span, reading fails and says where.

How a node is made from its parts is written once, for any way to get at the
trees of the parts.  An extractor keeps what it found for the parts in a memo,
which lasts from one extraction to the next; `read` keeps nothing.
-/

namespace ChartParsing

inductive ExtractionError where
  | missing (constituent : Constituent)
  | inconsistent (constituent : Constituent)
  | fault (cause : Fault)
  deriving DecidableEq, Repr

def ExtractionError.message? : ExtractionError → Option String
  | .missing ⟨symbol, span⟩ =>
      some s!"no witness recorded for symbol {symbol.id} at span {span.text}"
  | .inconsistent ⟨symbol, span⟩ =>
      some s!"witness for symbol {symbol.id} does not fit span {span.text}"
  | .fault cause => cause.message?

namespace Forest

/-! ## One node -/

section Node

variable {m : Type → Type} [Monad m] [MonadExcept ExtractionError m]

def ofToken (cap : Option Nat) (root : Constituent) (witness : Witness) : m Forest :=
  if cap = some 0 then pure ⟨[], true⟩
  else
    match witness with
    | .split .. => throw (.inconsistent root)
    | .leaf terminal =>
        match Tree.leaf terminal root.span.start with
        | .error fault => throw (.fault fault)
        | .ok leaf => pure ⟨[⟨root.symbol, root.span, [leaf]⟩], false⟩

/--
The trees over a longer span, one witness after another.  A witness stands for
at least one tree, so one that is left when the forest is full means that the
forest is cut.
-/
def ofSplits (cap : Option Nat) (root : Constituent)
    (part : (part : Constituent) → part.span.width < root.span.width → m Forest) :
    List Witness → Forest → m Forest
  | [], forest => pure forest
  | witness :: witnesses, forest =>
      if forest.isFull cap then pure { forest with truncated := true }
      else
        match h : witness.parts root.span with
        | .error fault => throw (.fault fault)
        | .ok none => throw (.inconsistent root)
        | .ok (some (left, right)) => do
            let lefts ← part left (Witness.width_lt_of_parts h).1
            let rights ← part right (Witness.width_lt_of_parts h).2
            ofSplits cap root part witnesses (forest.grow cap root lefts rights)

def ofParts (evidence : Evidence) (cap : Option Nat) (root : Constituent)
    (part : (part : Constituent) → part.span.width < root.span.width → m Forest) :
    m Forest :=
  match evidence.get? root with
  | none | some [] => throw (.missing root)
  | some (witness :: witnesses) =>
      match root.span.isToken with
      | .error fault => throw (.fault fault)
      | .ok true => ofToken cap root witness
      | .ok false => ofSplits cap root part (witness :: witnesses) ∅

end Node

/-! ## All nodes -/

def read (evidence : Evidence) (cap : Option Nat) (root : Constituent) :
    Except ExtractionError Forest :=
  ofParts evidence cap root fun part _ => read evidence cap part
termination_by root.span.width

abbrev Memo := Std.TreeMap Constituent Forest

abbrev Reading := ExceptT ExtractionError (StateM Memo)

def readOnce (evidence : Evidence) (cap : Option Nat) (root : Constituent) : Reading Forest := do
  match (← get)[root]? with
  | some forest => return forest
  | none =>
      let forest ← ofParts evidence cap root fun part _ => readOnce evidence cap part
      modify fun memo => memo.insert root forest
      return forest
termination_by root.span.width

end Forest

/-- Evidence to read trees from, the limits in force, and what was read so far. -/
structure Extractor where
  evidence : Evidence
  limits : Limits
  memo : Forest.Memo

namespace Extractor

def ofEvidence (evidence : Evidence) : Extractor := ⟨evidence, .unbounded, ∅⟩

def withLimits (extractor : Extractor) (limits : Limits) : Extractor :=
  { extractor with limits, memo := ∅ }

def extract (extractor : Extractor) (root : Constituent) :
    Except ExtractionError Forest × Extractor :=
  let cap := extractor.limits.cap
  let reading : Forest.Reading Forest :=
    Forest.ofParts extractor.evidence cap root fun part _ =>
      Forest.readOnce extractor.evidence cap part
  let (result, memo) := reading.run.run extractor.memo
  (result, { extractor with memo })

end Extractor

end ChartParsing
