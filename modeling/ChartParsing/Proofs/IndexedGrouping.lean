import ChartParsing.Proofs.Grouping
import ChartParsing.Proofs.Outcome

/-!
# Places of groups

The places of an indexed grouping are coherent with its entries if a key is
looked up where its entry stands.  Putting a member in keeps this, and what it
does to the groups is what it does to a grouping without places.
-/

namespace ChartParsing

open Outcome FirstAppearance

namespace Grouping

variable {κ α : Type} [DecidableEq κ] {groups : List (κ × List α)} {key : κ}

theorem insertGroup_eq_append (hkey : key ∉ groups.map Prod.fst) (member : α) :
    insertGroup key member groups = groups ++ [(key, [member])] := by
  induction groups with
  | nil => rfl
  | cons group groups ih =>
      rw [List.map_cons, List.mem_cons, not_or] at hkey
      rw [insertGroup, if_neg (Ne.symm hkey.1), ih hkey.2, List.cons_append]

theorem insertGroup_eq_set {place : Nat} {members : List α}
    (hkeys : (groups.map Prod.fst).Nodup) (hgroup : groups[place]? = some (key, members))
    (member : α) :
    insertGroup key member groups = groups.set place (key, members ++ [member]) := by
  induction groups generalizing place with
  | nil => simp at hgroup
  | cons group groups ih =>
      rw [List.map_cons, List.nodup_cons] at hkeys
      cases place with
      | zero =>
          rw [List.getElem?_cons_zero, Option.some.injEq] at hgroup
          subst hgroup
          rw [insertGroup, if_pos rfl, List.set_cons_zero]
      | succ place =>
          rw [List.getElem?_cons_succ] at hgroup
          have hkey : key ∈ groups.map Prod.fst :=
            List.mem_map_of_mem (f := Prod.fst) (List.mem_of_getElem? hgroup)
          have hother : group.1 ≠ key := fun heq => hkeys.1 (heq ▸ hkey)
          rw [insertGroup, if_neg hother, ih hkeys.2 hgroup, List.set_cons_succ]

end Grouping

namespace IndexedGrouping

variable {κ α : Type} [Ord κ] {grouping : IndexedGrouping κ α} {key : κ} {place : Nat}

theorem getElem?_groups : grouping.groups[place]? = grouping.entries[place]? :=
  Array.getElem?_toList

theorem mem_groups_of_getElem? {entry : κ × List α} (h : grouping.entries[place]? = some entry) :
    entry ∈ grouping.groups :=
  List.mem_of_getElem? (getElem?_groups.trans h)

theorem groups_setIfInBounds (entry : κ × List α) :
    groups ⟨grouping.entries.setIfInBounds place entry, grouping.places⟩ =
      grouping.groups.set place entry :=
  Array.toList_setIfInBounds

/-- Every key is looked up where its entry stands, and nowhere else. -/
def Coherent (grouping : IndexedGrouping κ α) : Prop :=
  ∀ (key : κ) (place : Nat), grouping.places[key]? = some place ↔
    ∃ members, grouping.entries[place]? = some (key, members)

theorem coherent_empty [Std.TransOrd κ] : (∅ : IndexedGrouping κ α).Coherent := by
  intro key place
  change (∅ : Std.TreeMap κ Nat)[key]? = some place ↔ ∃ members, (#[] : Array _)[place]? = _
  simp

theorem Coherent.nodup_keys (h : grouping.Coherent) : (grouping.groups.map Prod.fst).Nodup := by
  rw [List.Nodup, List.pairwise_iff_getElem]
  intro first second hfirst hsecond hlt hsame
  have hplace : ∀ place (hlt : place < (grouping.groups.map Prod.fst).length),
      grouping.places[(grouping.groups.map Prod.fst)[place]]? = some place := by
    intro place hlt
    rw [List.length_map] at hlt
    rw [h, ← getElem?_groups]
    exact ⟨(grouping.groups[place]).2, by simp [hlt]⟩
  have hfirstPlace := hplace first hfirst
  have hsecondPlace := hplace second hsecond
  rw [hsame, hsecondPlace, Option.some.injEq] at hfirstPlace
  exact Nat.ne_of_gt hlt hfirstPlace

theorem Coherent.not_mem_keys (h : grouping.Coherent) (hnone : grouping.places[key]? = none) :
    key ∉ grouping.groups.map Prod.fst := by
  intro hkey
  obtain ⟨⟨_, members⟩, hgroup, rfl⟩ := List.mem_map.mp hkey
  obtain ⟨place, hplace⟩ := List.mem_iff_getElem?.mp hgroup
  rw [getElem?_groups] at hplace
  rw [(h _ place).mpr ⟨members, hplace⟩] at hnone
  cases hnone

theorem Coherent.push [Std.TransOrd κ] [Std.LawfulEqOrd κ] (h : grouping.Coherent)
    (hnone : grouping.places[key]? = none) :
    Coherent ⟨grouping.entries.push (key, []),
      grouping.places.insert key grouping.entries.size⟩ := by
  intro other place
  simp only [Std.TreeMap.getElem?_insert, Array.getElem?_push]
  by_cases hother : key = other
  · subst hother
    have hnowhere : ¬ ∃ members, grouping.entries[place]? = some (key, members) := by
      rw [← h, hnone]
      simp
    by_cases hplace : place = grouping.entries.size
    · simp [hplace]
    · simpa [hplace, Ne.symm hplace] using hnowhere
  · rw [if_neg (mt Std.compare_eq_iff_eq.mp hother), h]
    by_cases hplace : place = grouping.entries.size
    · simp [hplace, hother]
    · rw [if_neg hplace]

theorem Coherent.set (h : grouping.Coherent) {members : List α}
    (hentry : grouping.entries[place]? = some (key, members)) (members' : List α) :
    Coherent ⟨grouping.entries.setIfInBounds place (key, members'), grouping.places⟩ := by
  intro other otherPlace
  rw [h, Array.getElem?_setIfInBounds]
  by_cases hplace : place = otherPlace
  · subst hplace
    rw [if_pos rfl, if_pos (Array.getElem?_eq_some_iff.mp hentry).1, hentry]
    simp
  · rw [if_neg hplace]

/-! ## Putting members in -/

/-- The place has the entry of the key, which stands last and is empty if the key is new. -/
structure Placed (grouping found : IndexedGrouping κ α) (key : κ) (place : Nat)
    (members : List α) : Prop where
  coherent : found.Coherent
  entry : found.entries[place]? = some (key, members)
  old_or_new : found = grouping ∨ members = [] ∧ key ∉ grouping.groups.map Prod.fst ∧
    place = grouping.groups.length ∧ found.groups = grouping.groups ++ [(key, [])]

theorem Coherent.placeOf [Std.TransOrd κ] [Std.LawfulEqOrd κ] (h : grouping.Coherent) (key : κ) :
    ∃ place found members, grouping.placeOf key = .ok (place, found) ∧
      grouping.Placed found key place members := by
  cases hplace : grouping.places[key]? with
  | some place =>
      obtain ⟨members, hentry⟩ := (h key place).mp hplace
      exact ⟨place, grouping, members, by simp only [IndexedGrouping.placeOf, hplace],
        ⟨h, hentry, .inl rfl⟩⟩
  | none =>
      have hnew := h.not_mem_keys hplace
      refine ⟨grouping.entries.size, _, [], ?_, ⟨h.push hplace, by simp,
        .inr ⟨rfl, hnew, by simp [groups], by simp [groups]⟩⟩⟩
      simp only [IndexedGrouping.placeOf, hplace, Array.size_push]
      rw [Word.minus_of_le (by omega)]
      rfl

variable {found : IndexedGrouping κ α} {members : List α} {member : α}

theorem Placed.insert_eq [DecidableEq α] (h : grouping.Placed found key place members)
    (hplace : grouping.placeOf key = .ok (place, found)) (member : α) :
    grouping.insert key member = .ok (if member ∈ members then (false, found) else
      (true, ⟨found.entries.setIfInBounds place (key, members ++ [member]), found.places⟩)) := by
  simp only [insert, hplace, bind, Except.bind, h.entry]
  split <;> rfl

theorem Placed.groups_write [DecidableEq κ] (h : grouping.Placed found key place members)
    (member : α) :
    groups ⟨found.entries.setIfInBounds place (key, members ++ [member]), found.places⟩ =
      Grouping.insertGroup key member grouping.groups := by
  have hentry := h.entry
  rw [groups_setIfInBounds]
  rcases h.old_or_new with rfl | ⟨rfl, hkey, rfl, happend⟩
  · rw [← getElem?_groups] at hentry
    exact (Grouping.insertGroup_eq_set h.coherent.nodup_keys hentry member).symm
  · rw [Grouping.insertGroup_eq_append hkey, happend]
    simp

theorem Placed.eq_of_mem (h : grouping.Placed found key place members)
    (hmember : member ∈ members) : found = grouping := by
  rcases h.old_or_new with hsame | ⟨rfl, -, -, -⟩
  · exact hsame
  · exact absurd hmember List.not_mem_nil

section Lists

variable [DecidableEq κ] [DecidableEq α]

/-- The grouping is what became of these pairs, and its places are those of the keys. -/
structure Lists (grouping : IndexedGrouping κ α) (pairs : List (κ × α)) : Prop where
  view : Grouping.Lists ⟨grouping.groups⟩ pairs
  coherent : grouping.Coherent

variable {pairs : List (κ × α)}

/-- The look-up by places finds what a search of the groups finds. -/
theorem Lists.members_eq (h : grouping.Lists pairs) (key : κ) :
    grouping.members key = .ok (Grouping.members ⟨grouping.groups⟩ key) := by
  unfold members
  cases hplace : grouping.places[key]? with
  | none =>
      rw [Grouping.members_eq_nil_of_not_mem _ (h.coherent.not_mem_keys hplace)]
  | some place =>
      obtain ⟨members, hentry⟩ := (h.coherent key place).mp hplace
      rw [← h.view.group_eq_members (mem_groups_of_getElem? hentry)]
      simp only [hentry]

theorem lists_empty [Std.TransOrd κ] : (∅ : IndexedGrouping κ α).Lists [] :=
  ⟨Grouping.lists_empty, coherent_empty⟩

theorem Placed.mem_members_iff (h : grouping.Placed found key place members)
    (hview : Grouping.Lists ⟨grouping.groups⟩ pairs) :
    member ∈ members ↔ (key, member) ∈ pairs := by
  have hgroup := mem_groups_of_getElem? h.entry
  rw [← hview.mem_members]
  rcases h.old_or_new with rfl | ⟨rfl, hkey, -, -⟩
  · rw [← hview.group_eq_members hgroup]
  · rw [Grouping.members_eq_nil_of_not_mem _ hkey]

theorem Lists.insert [Std.TransOrd κ] [Std.LawfulEqOrd κ] (h : grouping.Lists pairs) (key : κ)
    (member : α) :
    ∃ new result, grouping.insert key member = .ok (new, result) ∧
      result.Lists (pairs ++ [(key, member)]) ∧ (new = true ↔ (key, member) ∉ pairs) := by
  obtain ⟨place, found, members, hplace, hplaced⟩ := h.coherent.placeOf key
  have hinsert := hplaced.insert_eq hplace member
  by_cases hpair : (key, member) ∈ pairs
  · have hmember := (hplaced.mem_members_iff h.view).mpr hpair
    rw [if_pos hmember, hplaced.eq_of_mem hmember] at hinsert
    exact ⟨false, grouping, hinsert, ⟨h.view.of_repeated hpair, h.coherent⟩, by simp [hpair]⟩
  · rw [if_neg (mt (hplaced.mem_members_iff h.view).mp hpair)] at hinsert
    refine ⟨true, _, hinsert, ⟨?_, hplaced.coherent.set hplaced.entry _⟩, by simp [hpair]⟩
    rw [hplaced.groups_write]
    exact h.view.of_new hpair

end Lists

end IndexedGrouping

end ChartParsing
