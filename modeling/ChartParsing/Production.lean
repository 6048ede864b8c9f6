import ChartParsing.Fault

/-!
# Productions

A production expands one label, its left-hand side, to a list of labels.
Labels are arbitrary texts; whether one is a terminal or a nonterminal is
decided when a grammar is compiled.  A draft collects productions the way a
person writes them: a left-hand side once, then its alternatives.
-/

namespace ChartParsing

structure Production where
  lhs : String
  rhs : List String
  deriving DecidableEq, Repr

def Production.text (rule : Production) : String :=
  rule.rhs.foldl (fun text label => text ++ " " ++ label) (rule.lhs ++ " ->")

/-- A list of productions being written, and the left-hand side that is current. -/
structure Draft where
  productions : List Production
  head? : Option String
  deriving DecidableEq, Repr

namespace Draft

def empty : Draft := ⟨[], none⟩

def rule (draft : Draft) (lhs : String) : Draft := { draft with head? := some lhs }

def alternative (draft : Draft) (rhs : List String) : Except Fault Draft :=
  match draft.head? with
  | some lhs => .ok { draft with productions := draft.productions ++ [⟨lhs, rhs⟩] }
  | none => .error .alternativeBeforeHead

def terminals (draft : Draft) (labels : List String) : Except Fault Draft :=
  labels.foldlM (fun draft label => draft.alternative [label]) draft

end Draft

end ChartParsing
