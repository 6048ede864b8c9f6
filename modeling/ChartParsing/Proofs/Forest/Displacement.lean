import ChartParsing.Proofs.Forest.Reading

/-!
# Reading from another place

Spans, witnesses and trees can be moved along the input: everything keeps its
distance from `source` and has it from `target` instead.  Where the evidence in
a window of one input is the evidence in a window of another, moved, so is
everything that is read from it, be it a forest or an error.
-/

namespace ChartParsing

section Definitions

variable (source target : Nat)

def Span.move (span : Span) : Span :=
  ⟨span.start + target - source, span.stop + target - source⟩

def Constituent.move (constituent : Constituent) : Constituent :=
  ⟨constituent.symbol, constituent.span.move source target⟩

def Witness.move : Witness → Witness
  | .leaf terminal => .leaf terminal
  | .split position left right => .split (position + target - source) left right

mutual

def Tree.move : Tree → Tree
  | ⟨symbol, span, children⟩ => ⟨symbol, span.move source target, moveAll children⟩

def Tree.moveAll : List Tree → List Tree
  | [] => []
  | tree :: trees => move tree :: moveAll trees

end

def Forest.move (forest : Forest) : Forest :=
  ⟨forest.trees.map (Tree.move source target), forest.truncated⟩

def ExtractionError.move : ExtractionError → ExtractionError
  | .missing constituent => .missing (constituent.move source target)
  | .inconsistent constituent => .inconsistent (constituent.move source target)
  | .fault cause => .fault cause

def Forest.moved : Except ExtractionError Forest → Except ExtractionError Forest
  | .ok forest => .ok (forest.move source target)
  | .error error => .error (error.move source target)

structure Span.Inside (span : Span) (source length : Nat) : Prop where
  source_le : source ≤ span.start
  start_lt : span.start < span.stop
  stop_le : span.stop ≤ source + length

/-- What one body of evidence has in a window, the other has at its new place. -/
def Evidence.MovesTo (evidence other : Evidence) (length : Nat) : Prop :=
  ∀ constituent : Constituent, constituent.span.Inside source length →
    other.get? (constituent.move source target) =
      (evidence.get? constituent).map (List.map (Witness.move source target))

end Definitions

section Parts

variable {source target : Nat}

theorem Span.isToken_move {span : Span} (hsource : source ≤ span.start)
    (hstop : span.start < span.stop) : (span.move source target).isToken = span.isToken := by
  have hnext : span.stop + target - source = span.start + target - source + 1 ↔
      span.stop = span.start + 1 := by omega
  rw [isToken_eq (by simp only [move]; omega), isToken_eq (Nat.le_of_lt hstop)]
  simp only [move, hnext]

theorem Tree.move_branch (root : Constituent) (left right : Tree) :
    (Tree.branch root left right).move source target =
      Tree.branch (root.move source target) (left.move source target)
        (right.move source target) := by
  simp [branch, move, moveAll, Constituent.move]

namespace Forest

theorem isFull_move (forest : Forest) (cap : Option Nat) :
    (forest.move source target).isFull cap = forest.isFull cap := by
  cases cap <;> simp [move]

theorem map_move_product (root : Constituent) (lefts rights : List Tree) :
    (product root lefts rights).map (Tree.move source target) =
      product (root.move source target) (lefts.map (Tree.move source target))
        (rights.map (Tree.move source target)) := by
  simp [product, List.map_flatMap, List.flatMap_map, Function.comp_def, Tree.move_branch]

theorem move_grow (forest : Forest) (cap : Option Nat) (root : Constituent)
    (lefts rights : Forest) :
    (forest.grow cap root lefts rights).move source target =
      (forest.move source target).grow cap (root.move source target) (lefts.move source target)
        (rights.move source target) := by
  cases cap with
  | none => simp [grow, move, map_move_product]
  | some cap => simp [grow, move, productUpTo_eq_take, map_move_product]

/-! ## Reading -/

variable {evidence other : Evidence} {cap : Option Nat} {root : Constituent}

theorem ofToken_move (hsource : source ≤ root.span.start)
    (hlimit : root.span.start + 1 < Word.limit)
    (hlimit' : root.span.start + target - source + 1 < Word.limit) (witness : Witness) :
    ofToken (m := Except ExtractionError) cap (root.move source target)
        (witness.move source target) =
      moved source target (ofToken cap root witness) := by
  by_cases hcap : cap = some 0
  · simp [ofToken, hcap, moved, move, pure, Except.pure]
  · cases witness with
    | split position left right => simp [ofToken, hcap, Witness.move, moved, throw, throwThe,
        MonadExceptOf.throw, ExtractionError.move]
    | leaf terminal =>
        have hstop : root.span.start + 1 + target - source =
            root.span.start + target - source + 1 := by omega
        simp [ofToken, hcap, Witness.move, moved, move, Tree.leaf_eq terminal hlimit,
          Constituent.move, Span.move, Tree.leaf_eq terminal hlimit', Tree.move, Tree.moveAll,
          hstop, pure, Except.pure]

-- Both runs take the witnesses in the same order, so the forests grow side by side.
theorem ofSplits_move {length : Nat} (hroot : root.span.Inside source length)
    (hread : ∀ part : Constituent, part.span.width < root.span.width →
      part.span.Inside source length →
      read other cap (part.move source target) = moved source target (read evidence cap part))
    (witnesses : List Witness) (forest : Forest) :
    ofSplits cap (root.move source target) (fun part _ => read other cap part)
        (witnesses.map (Witness.move source target)) (forest.move source target) =
      moved source target
        (ofSplits cap root (fun part _ => read evidence cap part) witnesses forest) := by
  rcases hroot with ⟨hsource, -, hstop⟩
  induction witnesses generalizing forest with
  | nil => rfl
  | cons witness witnesses ih =>
      rw [List.map_cons]
      cases hfull : forest.isFull cap with
      | true =>
          rw [ofSplits_cons_of_full hfull, ofSplits_cons_of_full (by rw [isFull_move, hfull])]
          rfl
      | false =>
          have hfull' : (forest.move source target).isFull cap = false := by
            rw [isFull_move, hfull]
          cases witness with
          | leaf terminal =>
              rw [ofSplits_cons_of_leaf hfull, Witness.move, ofSplits_cons_of_leaf hfull']
              rfl
          | split position left right =>
              by_cases hinside : root.span.start < position ∧ position < root.span.stop
              · have hleft := hread ⟨left, ⟨root.span.start, position⟩⟩
                  (by simp only [Span.width]; omega)
                  ⟨hsource, hinside.1, by simp only; omega⟩
                have hright := hread ⟨right, ⟨position, root.span.stop⟩⟩
                  (by simp only [Span.width]; omega)
                  ⟨by simp only; omega, hinside.2, hstop⟩
                have hparts : (Witness.split (position + target - source) left right).parts
                    (root.move source target).span =
                    .ok (some (Constituent.move source target ⟨left, ⟨root.span.start, position⟩⟩,
                      Constituent.move source target ⟨right, ⟨position, root.span.stop⟩⟩)) := by
                  rw [Witness.parts_split]
                  · rfl
                  · simp only [Constituent.move, Span.move]
                    omega
                  · simp only [Constituent.move, Span.move]
                    omega
                rw [ofSplits_cons_of_parts hfull (Witness.parts_split hinside.1 hinside.2),
                  Witness.move, ofSplits_cons_of_parts hfull' hparts, hleft, hright]
                cases read evidence cap ⟨left, ⟨root.span.start, position⟩⟩ with
                | error error => rfl
                | ok lefts =>
                    cases read evidence cap ⟨right, ⟨position, root.span.stop⟩⟩ with
                    | error error => rfl
                    | ok rights =>
                        have hrest := ih (forest.grow cap root lefts rights)
                        rw [move_grow] at hrest
                        exact hrest
              · have houtside : ¬ ((root.move source target).span.start <
                    position + target - source ∧
                    position + target - source < (root.move source target).span.stop) := by
                  simp only [Constituent.move, Span.move]
                  omega
                rw [ofSplits_cons_of_fault hfull (Witness.parts_split_outside hinside),
                  Witness.move,
                  ofSplits_cons_of_fault hfull' (Witness.parts_split_outside houtside)]
                rfl

theorem read_move {root : Constituent} {length : Nat}
    (hmoves : evidence.MovesTo source target other length)
    (hlimit : source + length < Word.limit) (hlimit' : target + length < Word.limit)
    (hroot : root.span.Inside source length) :
    read other cap (root.move source target) =
      moved source target (read evidence cap root) := by
  have hget := hmoves root hroot
  have htoken : (root.move source target).span.isToken = root.span.isToken :=
    Span.isToken_move hroot.source_le hroot.start_lt
  rw [read, read]
  cases hwitnesses : evidence.get? root with
  | none =>
      rw [hwitnesses] at hget
      simp only [ofParts, hwitnesses, hget, Option.map_none]
      rfl
  | some witnesses =>
      rw [hwitnesses] at hget
      cases witnesses with
      | nil =>
          simp only [ofParts, hwitnesses, hget, Option.map_some, List.map_nil]
          rfl
      | cons witness witnesses =>
          simp only [ofParts, hwitnesses, hget, Option.map_some, List.map_cons]
          rw [htoken]
          cases root.span.isToken with
          | error fault => rfl
          | ok isToken =>
              cases isToken with
              | true =>
                  rcases hroot with ⟨hsource, hstart, hstop⟩
                  exact ofToken_move hsource (by omega) (by omega) witness
              | false =>
                  apply ofSplits_move hroot _ (witness :: witnesses) ∅
                  intro part hwidth hpart
                  exact read_move hmoves hlimit hlimit' hpart
termination_by root.span.width

end Forest

end Parts

end ChartParsing
