import ChartParsing.Grouping
import Mathlib.Data.List.Induction

/-!
# Groupings as views of the pairs put into them

`eraseDups` keeps the first occurrence of every member of a list.  A grouping
that got a list of pairs, repeated ones included, is determined by that list:
its keys are the keys of the pairs and its members the members of the pairs
with that key, both in order of first appearance.
-/

namespace ChartParsing

/-! ## Order of first appearance -/

namespace FirstAppearance

variable {α : Type} [BEq α] [LawfulBEq α]

theorem eraseDups_concat (items : List α) (item : α) :
    (items ++ [item]).eraseDups =
      if item ∈ items then items.eraseDups else items.eraseDups ++ [item] := by
  rw [List.eraseDups_append]
  by_cases h : item ∈ items
  · simp [List.removeAll, h]
  · simp [List.removeAll, h, List.eraseDups_cons]

theorem nodup_eraseDups (items : List α) : items.eraseDups.Nodup := by
  suffices h : ∀ items : List α, items.reverse.eraseDups.Nodup by
    simpa using h items.reverse
  intro items
  induction items with
  | nil => simp
  | cons item items ih =>
      rw [List.reverse_cons, eraseDups_concat]
      split
      · exact ih
      · rename_i hnew
        rw [List.nodup_append]
        refine ⟨ih, by simp, ?_⟩
        intro first hfirst second hsecond heq
        rw [List.mem_singleton] at hsecond
        rw [heq, hsecond, List.mem_eraseDups] at hfirst
        exact hnew hfirst

theorem eraseDups_append_extends (items more : List α) :
    items.eraseDups <+: (items ++ more).eraseDups := by
  rw [List.eraseDups_append]
  exact List.prefix_append _ _

theorem length_eraseDups_le (items : List α) : items.eraseDups.length ≤ items.length := by
  induction items using List.reverseRecOn with
  | nil => simp
  | append_singleton items item ih =>
      rw [eraseDups_concat, List.length_append, List.length_singleton]
      split
      · omega
      · rw [List.length_append, List.length_singleton]
        omega

end FirstAppearance

namespace Grouping

open FirstAppearance

variable {κ α : Type} [DecidableEq κ]

def membersIn (pairs : List (κ × α)) (key : κ) : List α :=
  (pairs.filter fun pair => pair.1 = key).map Prod.snd

theorem mem_membersIn {pairs : List (κ × α)} {key : κ} {member : α} :
    member ∈ membersIn pairs key ↔ (key, member) ∈ pairs := by
  simp [membersIn]

theorem membersIn_concat (pairs : List (κ × α)) (key other : κ) (member : α) :
    membersIn (pairs ++ [(key, member)]) other =
      if key = other then membersIn pairs other ++ [member] else membersIn pairs other := by
  by_cases h : key = other
  · simp [membersIn, h]
  · simp [membersIn, h]

/-! ## Groups given by their keys -/

theorem find?_groups (keys : List κ) (values : κ → List α) (key : κ) :
    ((keys.map fun key => (key, values key)).find? fun group => group.1 = key) =
      if key ∈ keys then some (key, values key) else none := by
  induction keys with
  | nil => rfl
  | cons first keys ih =>
      rw [List.map_cons, List.find?_cons]
      by_cases hfirst : first = key
      · simp [hfirst]
      · simp [hfirst, ih, Ne.symm hfirst]

theorem insertGroup_of_mem {keys : List κ} {key : κ} (values : κ → List α) (member : α)
    (hkeys : keys.Nodup) (hkey : key ∈ keys) :
    insertGroup key member (keys.map fun key => (key, values key)) =
      keys.map fun other =>
        (other, if key = other then values other ++ [member] else values other) := by
  induction keys with
  | nil => simp at hkey
  | cons first keys ih =>
      rw [List.nodup_cons] at hkeys
      simp only [List.map_cons, insertGroup]
      by_cases hfirst : first = key
      · subst hfirst
        rw [if_pos rfl, if_pos rfl]
        congr 1
        apply List.map_congr_left
        intro other hother
        rw [if_neg]
        rintro rfl
        exact hkeys.1 hother
      · have hrest : key ∈ keys := by
          simpa [Ne.symm hfirst] using hkey
        rw [if_neg hfirst, if_neg (Ne.symm hfirst), ih hkeys.2 hrest]

theorem insertGroup_of_not_mem {keys : List κ} {key : κ} (values : κ → List α) (member : α)
    (hkey : key ∉ keys) :
    insertGroup key member (keys.map fun key => (key, values key)) =
      (keys.map fun key => (key, values key)) ++ [(key, [member])] := by
  induction keys with
  | nil => rfl
  | cons first keys ih =>
      rw [List.mem_cons, not_or] at hkey
      simp only [List.map_cons, insertGroup, List.cons_append]
      rw [if_neg (Ne.symm hkey.1), ih hkey.2]

theorem size_insertGroup (key : κ) (member : α) (groups : List (κ × List α)) :
    size ⟨insertGroup key member groups⟩ = size ⟨groups⟩ + 1 := by
  simp only [size]
  induction groups with
  | nil => rfl
  | cons group groups ih =>
      by_cases hkey : group.1 = key
      · simp only [insertGroup, if_pos hkey, List.foldr_cons, List.length_append,
          List.length_singleton]
        omega
      · simp only [insertGroup, if_neg hkey, List.foldr_cons, ih]
        omega

theorem members_eq_nil_of_not_mem (grouping : Grouping κ α) {key : κ}
    (hkey : key ∉ grouping.groups.map Prod.fst) : grouping.members key = [] := by
  have hnone : (grouping.groups.find? fun group => group.1 = key) = none := by
    rw [List.find?_eq_none]
    intro group hgroup hfound
    apply hkey
    rw [← of_decide_eq_true hfound]
    exact List.mem_map_of_mem hgroup
  rw [members, hnone]
  rfl

/-! ## Groupings given by pairs -/

variable [DecidableEq α]

/-- The grouping is what became of these pairs. -/
def Lists (grouping : Grouping κ α) (pairs : List (κ × α)) : Prop :=
  grouping.groups =
    (pairs.map Prod.fst).eraseDups.map fun key => (key, (membersIn pairs key).eraseDups)

theorem lists_empty : (∅ : Grouping κ α).Lists [] := rfl

section Lists

variable {grouping : Grouping κ α} {pairs : List (κ × α)}

theorem Lists.members_eq (h : grouping.Lists pairs) (key : κ) :
    grouping.members key = (membersIn pairs key).eraseDups := by
  rw [members, h, find?_groups]
  by_cases hkey : key ∈ (pairs.map Prod.fst).eraseDups
  · simp [if_pos hkey]
  · rw [if_neg hkey]
    have hnone : membersIn pairs key = [] := by
      rw [List.eq_nil_iff_forall_not_mem]
      intro member hmember
      apply hkey
      rw [List.mem_eraseDups]
      exact List.mem_map_of_mem (mem_membersIn.mp hmember)
    rw [hnone]
    rfl

theorem Lists.mem_members (h : grouping.Lists pairs) {key : κ} {member : α} :
    member ∈ grouping.members key ↔ (key, member) ∈ pairs := by
  rw [h.members_eq, List.mem_eraseDups, mem_membersIn]

theorem Lists.keys_eq (h : grouping.Lists pairs) :
    grouping.groups.map Prod.fst = (pairs.map Prod.fst).eraseDups := by
  rw [h, List.map_map]
  simp [Function.comp_def]

theorem Lists.group_eq (h : grouping.Lists pairs) {group : κ × List α}
    (hgroup : group ∈ grouping.groups) :
    group.2 = (membersIn pairs group.1).eraseDups := by
  rw [h, List.mem_map] at hgroup
  rcases hgroup with ⟨key, -, rfl⟩
  rfl

theorem Lists.group_eq_members (h : grouping.Lists pairs) {group : κ × List α}
    (hgroup : group ∈ grouping.groups) : group.2 = grouping.members group.1 := by
  rw [h.members_eq]
  exact h.group_eq hgroup

theorem Lists.mem_groups (h : grouping.Lists pairs) {key : κ} {member : α}
    (hmember : member ∈ grouping.members key) :
    (key, grouping.members key) ∈ grouping.groups := by
  rw [h.members_eq, h, List.mem_map]
  refine ⟨key, ?_, rfl⟩
  rw [List.mem_eraseDups]
  exact List.mem_map_of_mem (h.mem_members.mp hmember)

theorem Lists.group_ne_nil (h : grouping.Lists pairs) {group : κ × List α}
    (hgroup : group ∈ grouping.groups) : group.2 ≠ [] := by
  have hkey : group.1 ∈ grouping.groups.map Prod.fst := List.mem_map_of_mem hgroup
  rw [h.keys_eq, List.mem_eraseDups, List.mem_map] at hkey
  rcases hkey with ⟨⟨key, member⟩, hpair, hkey⟩
  simp only at hkey
  subst hkey
  have hmember : member ∈ grouping.members group.1 := h.mem_members.mpr hpair
  rw [h.group_eq_members hgroup]
  exact List.ne_nil_of_mem hmember

theorem Lists.nodup_members (h : grouping.Lists pairs) (key : κ) :
    (grouping.members key).Nodup := by
  rw [h.members_eq]
  exact nodup_eraseDups _

theorem Lists.of_repeated (h : grouping.Lists pairs) {key : κ} {member : α}
    (hpair : (key, member) ∈ pairs) : grouping.Lists (pairs ++ [(key, member)]) := by
  have hkey : key ∈ pairs.map Prod.fst := List.mem_map_of_mem hpair
  rw [Lists, h, List.map_append, List.map_singleton, eraseDups_concat, if_pos hkey]
  apply List.map_congr_left
  intro other _
  rw [membersIn_concat]
  split
  · rename_i hother
    rw [eraseDups_concat, if_pos (mem_membersIn.mpr (hother ▸ hpair))]
  · rfl

theorem Lists.of_new (h : grouping.Lists pairs) {key : κ} {member : α}
    (hpair : (key, member) ∉ pairs) :
    Lists ⟨insertGroup key member grouping.groups⟩ (pairs ++ [(key, member)]) := by
  change insertGroup key member grouping.groups = _
  rw [List.map_append, List.map_singleton, eraseDups_concat]
  by_cases hkey : key ∈ pairs.map Prod.fst
  · have hmember : member ∉ membersIn pairs key := mt mem_membersIn.mp hpair
    rw [if_pos hkey, h, insertGroup_of_mem _ member (nodup_eraseDups _)
      (List.mem_eraseDups.mpr hkey)]
    apply List.map_congr_left
    intro other _
    rw [membersIn_concat]
    split
    · rename_i hother
      subst hother
      rw [eraseDups_concat, if_neg hmember]
    · rfl
  · have hkeys : key ∉ (pairs.map Prod.fst).eraseDups := mt List.mem_eraseDups.mp hkey
    have hnone : membersIn pairs key = [] := by
      rw [List.eq_nil_iff_forall_not_mem]
      intro other hother
      exact hkey (List.mem_map_of_mem (mem_membersIn.mp hother))
    rw [if_neg hkey, h, insertGroup_of_not_mem _ member hkeys, List.map_append]
    congr 1
    · apply List.map_congr_left
      intro other hother
      rw [membersIn_concat, if_neg]
      rintro rfl
      exact hkeys hother
    · simp [membersIn_concat, hnone, List.eraseDups_cons]

theorem Lists.insert? (h : grouping.Lists pairs) (key : κ) (member : α) :
    match grouping.insert? key member with
    | some grouping' => (key, member) ∉ pairs ∧ grouping'.Lists (pairs ++ [(key, member)])
    | none => (key, member) ∈ pairs ∧ grouping.Lists (pairs ++ [(key, member)]) := by
  unfold Grouping.insert?
  by_cases hpair : (key, member) ∈ pairs
  · rw [if_pos (h.mem_members.mpr hpair)]
    exact ⟨hpair, h.of_repeated hpair⟩
  · rw [if_neg (mt h.mem_members.mp hpair)]
    exact ⟨hpair, h.of_new hpair⟩

theorem Lists.size_eq (h : grouping.Lists pairs) : grouping.size = pairs.eraseDups.length := by
  induction pairs using List.reverseRecOn generalizing grouping with
  | nil =>
      simp only [Lists, List.map_nil, List.eraseDups_nil] at h
      simp [size, h]
  | append_singleton pairs pair ih =>
      rcases pair with ⟨key, member⟩
      obtain ⟨before, hbefore⟩ : ∃ before : Grouping κ α, before.Lists pairs := ⟨⟨_⟩, rfl⟩
      have hsize := ih hbefore
      rw [eraseDups_concat]
      by_cases hpair : (key, member) ∈ pairs
      · have hgroups : grouping.groups = before.groups :=
          h.trans (hbefore.of_repeated hpair).symm
        rw [if_pos hpair, ← hsize, size, hgroups, size]
      · have hgroups : grouping.groups = insertGroup key member before.groups :=
          h.trans (hbefore.of_new hpair).symm
        have hinsert := size_insertGroup key member before.groups
        rw [if_neg hpair, List.length_append, List.length_singleton, ← hsize, ← hinsert, size,
          hgroups, size]

section Concat

variable {grouping' : Grouping κ α} {pair : κ × α} (h : grouping.Lists pairs)
  (h' : grouping'.Lists (pairs ++ [pair]))

include h h'

theorem Lists.size_concat_of_mem (hpair : pair ∈ pairs) : grouping'.size = grouping.size := by
  rw [h.size_eq, h'.size_eq, eraseDups_concat, if_pos hpair]

theorem Lists.size_concat_of_not_mem (hpair : pair ∉ pairs) :
    grouping'.size = grouping.size + 1 := by
  rw [h.size_eq, h'.size_eq, eraseDups_concat, if_neg hpair, List.length_append,
    List.length_singleton]

end Concat

theorem Lists.size_le (h : grouping.Lists pairs) : grouping.size ≤ pairs.length := by
  rw [h.size_eq]
  exact length_eraseDups_le pairs

end Lists

end Grouping

end ChartParsing
