import ChartParsing.Forest.Extraction
import ChartParsing.Proofs.Outcome

/-!
# Reading one node

Equations for reading a node in `Except`: what its span and its witnesses come
to, which of the witnesses count, what a full forest does with the next one,
what a forest with room does, and what a successful reading says about the
parts.
-/

namespace ChartParsing

open Outcome

theorem Span.isToken_eq {span : Span} (h : span.start ≤ span.stop) :
    span.isToken = .ok (decide (span.stop = span.start + 1)) := by
  rw [isToken, length, Word.minus_of_le h]
  change Except.ok (span.stop - span.start == 1) = _
  congr 1
  rw [Bool.eq_iff_iff, beq_iff_eq, decide_eq_true_eq]
  omega

theorem Span.stop_eq_of_isToken {span : Span} (h : span.isToken = .ok true) :
    span.stop = span.start + 1 := by
  rw [isToken, length] at h
  unfold Word.minus at h
  split at h
  · have hlength : span.stop - span.start = 1 := by simpa [Functor.map, Except.map] using h
    omega
  · cases h

theorem Tree.leaf_eq (terminal : Symbol) {position : Nat}
    (hlimit : position + 1 < Word.limit) :
    Tree.leaf terminal position = .ok ⟨terminal, ⟨position, position + 1⟩, []⟩ := by
  rw [leaf, Span.token, Word.checked_of_lt hlimit]
  simp [Span.between, bind, Except.bind, pure, Except.pure]

theorem Tree.eq_of_leaf {terminal : Symbol} {position : Nat} {tree : Tree}
    (h : Tree.leaf terminal position = .ok tree) :
    tree = ⟨terminal, ⟨position, position + 1⟩, []⟩ := by
  by_cases hlimit : position + 1 < Word.limit
  · rw [leaf_eq terminal hlimit] at h
    cases h
    rfl
  · rw [leaf, Span.token, Word.checked, if_neg hlimit] at h
    cases h

section Parts

variable {span : Span} {position : Nat} {left right : Symbol}

theorem Witness.parts_split (hstart : span.start < position) (hstop : position < span.stop) :
    (Witness.split position left right).parts span =
      .ok (some (⟨left, ⟨span.start, position⟩⟩, ⟨right, ⟨position, span.stop⟩⟩)) := by
  rw [parts, Span.splitAt, if_pos ⟨hstart, hstop⟩]
  rfl

theorem Witness.parts_split_outside
    (houtside : ¬ (span.start < position ∧ position < span.stop)) :
    (Witness.split position left right).parts span = .error .splitOutside := by
  rw [parts, Span.splitAt, if_neg houtside]
  rfl

theorem Witness.split_of_parts {witness : Witness} {leftPart rightPart : Constituent}
    (h : witness.parts span = .ok (some (leftPart, rightPart))) :
    ∃ position, witness = .split position leftPart.symbol rightPart.symbol ∧
      span.start < position ∧ position < span.stop ∧
      leftPart.span = ⟨span.start, position⟩ ∧ rightPart.span = ⟨position, span.stop⟩ := by
  cases witness with
  | leaf terminal => cases h
  | split position left right =>
      by_cases hinside : span.start < position ∧ position < span.stop
      · rw [parts_split hinside.1 hinside.2] at h
        cases h
        exact ⟨position, rfl, hinside.1, hinside.2, rfl, rfl⟩
      · rw [parts_split_outside hinside] at h
        cases h

end Parts

namespace Forest

theorem mem_product {root : Constituent} {lefts rights : List Tree} {tree : Tree} :
    tree ∈ product root lefts rights ↔
      ∃ left ∈ lefts, ∃ right ∈ rights, tree = Tree.branch root left right := by
  simp only [product, List.mem_flatMap, List.mem_map, eq_comm]

variable {evidence : Evidence} {cap : Option Nat} {root : Constituent}
  {part : (part : Constituent) → part.span.width < root.span.width →
    Except ExtractionError Forest}
  {witness : Witness} {witnesses : List Witness} {forest final : Forest}

theorem ofParts_of_token (hget : evidence.get? root = some (witness :: witnesses))
    (htoken : root.span.isToken = .ok true) :
    ofParts evidence cap root part = ofToken cap root witness := by
  simp only [ofParts, hget, htoken]

theorem ofParts_of_long (hget : evidence.get? root = some (witness :: witnesses))
    (hlong : root.span.isToken = .ok false) :
    ofParts evidence cap root part = ofSplits cap root part (witness :: witnesses) ∅ := by
  simp only [ofParts, hget, hlong]

theorem exists_witnesses_of_ofParts (h : ofParts evidence cap root part = .ok forest) :
    ∃ witness witnesses, evidence.get? root = some (witness :: witnesses) ∧
      (root.span.isToken = .ok true ∧
          ofToken (m := Except ExtractionError) cap root witness = .ok forest ∨
        root.span.isToken = .ok false ∧
          ofSplits cap root part (witness :: witnesses) ∅ = .ok forest) := by
  unfold ofParts at h
  split at h
  · cases h
  · cases h
  · rename_i witness witnesses hget
    refine ⟨witness, witnesses, hget, ?_⟩
    split at h
    · cases h
    · rename_i htoken
      exact .inl ⟨htoken, h⟩
    · rename_i hlong
      exact .inr ⟨hlong, h⟩

@[simp] theorem isFull_none (forest : Forest) : forest.isFull none = false := rfl

@[simp] theorem isFull_some (forest : Forest) (bound : Nat) :
    forest.isFull (some bound) = decide (bound ≤ forest.trees.length) := rfl

theorem ofSplits_cons_of_full (hfull : forest.isFull cap = true) :
    ofSplits cap root part (witness :: witnesses) forest =
      .ok { forest with truncated := true } := by
  rw [ofSplits, if_pos hfull]
  rfl

theorem ofSplits_cons_of_parts {left right : Constituent} (hfull : forest.isFull cap = false)
    (hparts : witness.parts root.span = .ok (some (left, right))) :
    ofSplits cap root part (witness :: witnesses) forest =
      (part left (Witness.width_lt_of_parts hparts).1 >>= fun lefts =>
        part right (Witness.width_lt_of_parts hparts).2 >>= fun rights =>
          ofSplits cap root part witnesses (forest.grow cap root lefts rights)) := by
  rw [ofSplits, if_neg (by simp [hfull])]
  split <;> rename_i h <;> rw [hparts] at h <;> cases h
  rfl

theorem ofSplits_cons_of_leaf {terminal : Symbol} (hfull : forest.isFull cap = false) :
    ofSplits cap root part (.leaf terminal :: witnesses) forest =
      .error (.inconsistent root) := by
  rw [ofSplits, if_neg (by simp [hfull])]
  rfl

theorem ofSplits_cons_of_fault {fault : Fault} (hfull : forest.isFull cap = false)
    (hparts : witness.parts root.span = .error fault) :
    ofSplits cap root part (witness :: witnesses) forest = .error (.fault fault) := by
  rw [ofSplits, if_neg (by simp [hfull])]
  split <;> rename_i h <;> rw [hparts] at h <;> cases h
  rfl

theorem exists_parts_of_ofSplits (hfull : forest.isFull cap = false)
    (h : ofSplits cap root part (witness :: witnesses) forest = .ok final) :
    ∃ left right, ∃ hparts : witness.parts root.span = .ok (some (left, right)),
      ∃ lefts rights,
        part left (Witness.width_lt_of_parts hparts).1 = .ok lefts ∧
        part right (Witness.width_lt_of_parts hparts).2 = .ok rights ∧
        ofSplits cap root part witnesses (forest.grow cap root lefts rights) = .ok final := by
  rw [ofSplits, if_neg (by simp [hfull])] at h
  split at h
  · cases h
  · cases h
  · rename_i left right hparts
    obtain ⟨lefts, hlefts, h⟩ := bind_eq_ok.mp h
    obtain ⟨rights, hrights, h⟩ := bind_eq_ok.mp h
    exact ⟨left, right, hparts, lefts, rights, hlefts, hrights, h⟩

end Forest

end ChartParsing
