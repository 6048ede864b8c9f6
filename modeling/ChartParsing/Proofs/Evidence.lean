import ChartParsing.Proofs.Outcome
import ChartParsing.Witness
import Mathlib.Algebra.BigOperators.Group.List.Basic
import Mathlib.Algebra.Order.Ring.Nat
import Mathlib.Data.List.Nodup
import Std.Data.TreeMap.Lemmas

/-!
# What evidence holds

Recording a witness puts it last in the list of its constituent and counts it.
The count is kept apart from the lists, and agrees with them as long as it is
the one of empty evidence, or of evidence for which it agreed, with a witness
recorded.
-/

namespace ChartParsing

open Outcome

namespace Evidence

/-- The evidence with a witness more, even if the count of them is no machine word. -/
def recorded (evidence : Evidence) (constituent : Constituent) (witness : Witness) : Evidence :=
  ⟨evidence.witnesses.insert constituent ((evidence.get? constituent).getD [] ++ [witness]),
    evidence.numWitnesses + 1⟩

theorem record_eq_ok_iff {evidence next : Evidence} {constituent : Constituent}
    {witness : Witness} :
    evidence.record constituent witness = .ok next ↔
      evidence.numWitnesses + 1 < Word.limit ∧ evidence.recorded constituent witness = next := by
  unfold record recorded Word.checked
  split <;> simp [bind, Except.bind, pure, Except.pure, *]

theorem record_meets {allowed : Fault → Prop} {evidence : Evidence} (constituent : Constituent)
    (witness : Witness) (hoverflow : Word.limit ≤ evidence.numWitnesses + 1 → allowed .overflow) :
    Meets allowed (fun next => next = evidence.recorded constituent witness ∧
      evidence.numWitnesses + 1 < Word.limit) (evidence.record constituent witness) := by
  apply (checked_meets hoverflow).bind
  rintro _ ⟨rfl, hlt⟩
  exact ⟨rfl, hlt⟩

theorem get?_recorded (evidence : Evidence) (constituent other : Constituent)
    (witness : Witness) :
    (evidence.recorded constituent witness).get? other =
      if other = constituent then some ((evidence.get? constituent).getD [] ++ [witness])
      else evidence.get? other := by
  simp only [get?, recorded, Std.TreeMap.getElem?_insert, Std.LawfulEqCmp.compare_eq_iff_eq]
  simp only [eq_comm]

/-! ## Witnesses stay -/

def Has (evidence : Evidence) (constituent : Constituent) (witness : Witness) : Prop :=
  ∃ witnesses, evidence.get? constituent = some witnesses ∧ witness ∈ witnesses

theorem has_recorded (evidence : Evidence) (constituent : Constituent) (witness : Witness) :
    (evidence.recorded constituent witness).Has constituent witness := by
  rw [Has, get?_recorded, if_pos rfl]
  exact ⟨_, rfl, by simp⟩

theorem Has.recorded {evidence : Evidence} {constituent : Constituent} {witness : Witness}
    (h : evidence.Has constituent witness) (other : Constituent) (another : Witness) :
    (evidence.recorded other another).Has constituent witness := by
  obtain ⟨witnesses, hget, hmem⟩ := h
  rw [Has, get?_recorded]
  by_cases heq : constituent = other
  · rw [if_pos heq, ← heq, hget]
    exact ⟨_, rfl, by simp [hmem]⟩
  · rw [if_neg heq]
    exact ⟨witnesses, hget, hmem⟩

/-! ## Key by key -/

structure Keys (evidence : Evidence) (constituents : List Constituent) : Prop where
  nodup : constituents.Nodup
  mem_iff : ∀ constituent, constituent ∈ constituents ↔ evidence.get? constituent ≠ none

def count (evidence : Evidence) (constituent : Constituent) : Nat :=
  ((evidence.get? constituent).getD []).length

variable {evidence : Evidence} {constituents : List Constituent} {constituent : Constituent}

theorem keys_keys (evidence : Evidence) : evidence.Keys evidence.witnesses.keys where
  nodup := Std.TreeMap.nodup_keys
  mem_iff constituent := by
    rw [Std.TreeMap.mem_keys, Std.TreeMap.mem_iff_isSome_getElem?, Option.isSome_iff_ne_none, get?]

theorem Keys.toList_perm (h : evidence.Keys constituents) :
    evidence.witnesses.toList.Perm
      (constituents.map fun constituent =>
        (constituent, (evidence.get? constituent).getD [])) := by
  have hlist : evidence.witnesses.toList.Nodup := by
    apply Std.TreeMap.distinct_keys_toList.imp
    rintro first second hne rfl
    exact hne Std.ReflCmp.compare_self
  have hmap : (constituents.map fun constituent =>
      (constituent, (evidence.get? constituent).getD [])).Nodup :=
    h.nodup.map fun first second heq => congrArg Prod.fst heq
  rw [List.perm_ext_iff_of_nodup hlist hmap]
  rintro ⟨constituent, witnesses⟩
  rw [Std.TreeMap.mem_toList_iff_getElem?_eq_some, List.mem_map]
  constructor
  · intro hget
    have hkey : evidence.get? constituent = some witnesses := hget
    exact ⟨constituent, (h.mem_iff constituent).mpr (by simp [hkey]), by simp [hkey]⟩
  · rintro ⟨other, hother, heq⟩
    cases heq
    rcases Option.ne_none_iff_exists'.mp ((h.mem_iff constituent).mp hother) with ⟨found, hfound⟩
    change evidence.get? constituent = _
    rw [hfound, Option.getD_some]

theorem Keys.numConstituents_eq (h : evidence.Keys constituents) :
    evidence.numConstituents = constituents.length := by
  rw [numConstituents, ← Std.TreeMap.length_toList, h.toList_perm.length_eq, List.length_map]

def total (evidence : Evidence) : Nat :=
  (evidence.witnesses.toList.map fun entry => entry.2.length).sum

theorem Keys.total_eq (h : evidence.Keys constituents) :
    evidence.total = (constituents.map evidence.count).sum := by
  rw [total, (h.toList_perm.map _).sum_eq, List.map_map]
  rfl

theorem Keys.recorded (h : evidence.Keys constituents) (constituent : Constituent)
    (witness : Witness) :
    (evidence.recorded constituent witness).Keys (constituents.insert constituent) where
  nodup := h.nodup.insert
  mem_iff other := by
    rw [List.mem_insert_iff, get?_recorded, h.mem_iff]
    by_cases hother : other = constituent <;> simp [hother]

theorem count_recorded (evidence : Evidence) (constituent other : Constituent)
    (witness : Witness) :
    (evidence.recorded constituent witness).count other =
      evidence.count other + if other = constituent then 1 else 0 := by
  rw [count, get?_recorded]
  by_cases hother : other = constituent
  · simp [hother, count]
  · simp [hother, count]

theorem total_recorded (evidence : Evidence) (constituent : Constituent)
    (witness : Witness) :
    (evidence.recorded constituent witness).total = evidence.total + 1 := by
  have hkeys := evidence.keys_keys
  have hnew := hkeys.recorded constituent witness
  have hone : ((evidence.witnesses.keys.insert constituent).map fun other =>
      if other = constituent then 1 else 0).sum = 1 := by
    rw [List.sum_map_eq_nsmul_single constituent _ fun other hne _ => if_neg hne,
      List.count_eq_one_of_mem hnew.nodup List.mem_insert_self]
    simp
  have hrest : ((evidence.witnesses.keys.insert constituent).map evidence.count).sum =
      (evidence.witnesses.keys.map evidence.count).sum := by
    by_cases hkey : constituent ∈ evidence.witnesses.keys
    · rw [List.insert_of_mem hkey]
    · have hnone : evidence.get? constituent = none := by
        simpa [hkeys.mem_iff] using hkey
      rw [List.insert_of_not_mem hkey, List.map_cons, List.sum_cons, count, hnone]
      simp
  rw [hnew.total_eq, hkeys.total_eq,
    funext fun other => evidence.count_recorded constituent other witness, List.sum_map_add, hone,
    hrest]

/-- The count that is kept agrees with the lists. -/
def Counted (evidence : Evidence) : Prop := evidence.numWitnesses = evidence.total

theorem counted_empty : (∅ : Evidence).Counted := rfl

theorem Counted.recorded (h : evidence.Counted) (constituent : Constituent)
    (witness : Witness) : (evidence.recorded constituent witness).Counted := by
  rw [Counted, total_recorded, ← h]
  rfl

end Evidence

end ChartParsing
