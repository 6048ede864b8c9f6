import ChartParsing.Fault
import Std.Data.TreeMap

/-!
# Groupings

A grouping sorts members under keys.  Keys stand in the order in which they
first got a member, and so do the members under each key; a member is never
twice under one key, and a key never without a member.

In an indexed grouping the groups are entries of an array, and a key is looked
up by its place in the array.
-/

namespace ChartParsing

structure Grouping (κ α : Type) where
  groups : List (κ × List α)
  deriving DecidableEq, Repr

namespace Grouping

variable {κ α : Type}

def empty : Grouping κ α := ⟨[]⟩

instance : EmptyCollection (Grouping κ α) := ⟨empty⟩

def size (grouping : Grouping κ α) : Nat :=
  grouping.groups.foldr (fun group size => group.2.length + size) 0

variable [DecidableEq κ]

def members (grouping : Grouping κ α) (key : κ) : List α :=
  ((grouping.groups.find? fun group => group.1 = key).map Prod.snd).getD []

/-- Puts a member last under its key, and a key that has no group yet last of all. -/
def insertGroup (key : κ) (member : α) : List (κ × List α) → List (κ × List α)
  | [] => [(key, [member])]
  | group :: groups =>
      if group.1 = key then (group.1, group.2 ++ [member]) :: groups
      else group :: insertGroup key member groups

def insert? [DecidableEq α] (grouping : Grouping κ α) (key : κ) (member : α) :
    Option (Grouping κ α) :=
  if member ∈ grouping.members key then none
  else some ⟨insertGroup key member grouping.groups⟩

end Grouping

structure IndexedGrouping (κ α : Type) [Ord κ] where
  entries : Array (κ × List α)
  places : Std.TreeMap κ Nat

namespace IndexedGrouping

variable {κ α : Type} [Ord κ]

def empty : IndexedGrouping κ α := ⟨#[], ∅⟩

instance : EmptyCollection (IndexedGrouping κ α) := ⟨empty⟩

def groups (grouping : IndexedGrouping κ α) : List (κ × List α) := grouping.entries.toList

def members (grouping : IndexedGrouping κ α) (key : κ) : Except Fault (List α) :=
  match grouping.places[key]? with
  | none => .ok []
  | some place =>
      match grouping.entries[place]? with
      | some entry => .ok entry.2
      | none => .error .outOfRange

/-- The place of a key, which gets an entry without members if it has none yet. -/
def placeOf (grouping : IndexedGrouping κ α) (key : κ) :
    Except Fault (Nat × IndexedGrouping κ α) :=
  match grouping.places[key]? with
  | some place => .ok (place, grouping)
  | none => do
      let entries := grouping.entries.push (key, [])
      let place ← Word.minus entries.size 1
      return (place, ⟨entries, grouping.places.insert key place⟩)

def insert [DecidableEq α] (grouping : IndexedGrouping κ α) (key : κ) (member : α) :
    Except Fault (Bool × IndexedGrouping κ α) := do
  let (place, grouping) ← grouping.placeOf key
  match grouping.entries[place]? with
  | none => .error .outOfRange
  | some entry =>
      if member ∈ entry.2 then return (false, grouping)
      else
        let entries := grouping.entries.setIfInBounds place (entry.1, entry.2 ++ [member])
        return (true, { grouping with entries })

end IndexedGrouping

end ChartParsing
