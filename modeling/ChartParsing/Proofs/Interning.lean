import ChartParsing.Proofs.Grouping
import ChartParsing.Proofs.Outcome
import ChartParsing.SymbolSet

/-!
# Interned labels

A table that got a list of labels, repeated ones included, holds them in order
of first appearance, and its two directions are inverse to each other.  So a
label keeps its symbol however many labels follow.  Interning fails only when
there are more labels than symbols.
-/

namespace ChartParsing

open Outcome FirstAppearance

namespace SymbolTable

/-- The table is what became of these labels. -/
structure Lists (table : SymbolTable) (labels : List String) : Prop where
  labels_eq : table.labels.toList = labels.eraseDups
  next_eq : table.next.toNat = table.labels.size
  symbol?_eq_some_iff : ∀ label symbol,
    table.symbol? label = some symbol ↔ table.labels[symbol.id]? = some label
  size_lt : table.size < Symbol.limit

theorem lists_empty : empty.Lists [] where
  labels_eq := rfl
  next_eq := rfl
  symbol?_eq_some_iff label symbol := by
    simp [symbol?, empty]
  size_lt := by
    simp [size, empty, Symbol.limit]

section Lists

variable {table : SymbolTable} {labels : List String} {label : String} {symbol : Symbol}

theorem Lists.size_labels (h : table.Lists labels) : table.labels.size = table.size :=
  h.next_eq.symm

theorem Lists.size_eq (h : table.Lists labels) : table.size = labels.eraseDups.length := by
  rw [← h.labels_eq, Array.length_toList, h.size_labels]

theorem Lists.id_lt (h : table.Lists labels) (hsymbol : table.symbol? label = some symbol) :
    symbol.id < table.size := by
  rw [← h.size_labels]
  exact (Array.getElem?_eq_some_iff.mp ((h.symbol?_eq_some_iff _ _).mp hsymbol)).1

theorem Lists.label_inj (h : table.Lists labels) {other : String}
    (hlabel : table.symbol? label = some symbol) (hother : table.symbol? other = some symbol) :
    label = other := by
  rw [h.symbol?_eq_some_iff] at hlabel hother
  exact Option.some.inj (hlabel.symm.trans hother)

theorem Lists.label_eq_ok_iff (h : table.Lists labels) :
    table.label symbol = .ok label ↔ table.symbol? label = some symbol := by
  rw [h.symbol?_eq_some_iff, SymbolTable.label]
  cases table.labels[symbol.id]? <;> simp

theorem Lists.exists_symbol (h : table.Lists labels) :
    (∃ symbol, table.symbol? label = some symbol) ↔ label ∈ labels := by
  rw [← List.mem_eraseDups, ← h.labels_eq, List.mem_iff_getElem?]
  constructor
  · rintro ⟨symbol, hsymbol⟩
    exact ⟨symbol.id, by simpa using (h.symbol?_eq_some_iff _ _).mp hsymbol⟩
  · rintro ⟨id, hid⟩
    rw [Array.getElem?_toList] at hid
    have hplace := (Array.getElem?_eq_some_iff.mp hid).1
    rw [h.size_labels] at hplace
    have hlt : id < Symbol.limit := Nat.lt_trans hplace h.size_lt
    obtain ⟨symbol, rfl⟩ := Symbol.exists_id hlt
    exact ⟨symbol, (h.symbol?_eq_some_iff _ _).mpr hid⟩

theorem Lists.exists_label (h : table.Lists labels) (hsymbol : symbol.id < table.size) :
    ∃ label ∈ labels, table.symbol? label = some symbol := by
  rw [← h.size_labels] at hsymbol
  have hlabel := Array.getElem?_eq_getElem hsymbol
  refine ⟨_, ?_, (h.symbol?_eq_some_iff _ _).mpr hlabel⟩
  exact h.exists_symbol.mp ⟨symbol, (h.symbol?_eq_some_iff _ _).mpr hlabel⟩

theorem Lists.symbol?_of_append (h : table.Lists labels) {table' : SymbolTable}
    {more : List String} (h' : table'.Lists (labels ++ more))
    (hsymbol : table.symbol? label = some symbol) : table'.symbol? label = some symbol := by
  rw [h.symbol?_eq_some_iff, ← Array.getElem?_toList, h.labels_eq] at hsymbol
  rw [h'.symbol?_eq_some_iff, ← Array.getElem?_toList, h'.labels_eq]
  obtain ⟨rest, hrest⟩ := eraseDups_append_extends labels more
  rw [← hrest, List.getElem?_append_left (List.getElem?_eq_some_iff.mp hsymbol).1]
  exact hsymbol

end Lists

/-! ## Interning -/

section Interning

variable {table : SymbolTable} {labels : List String} {allowed : Fault → Prop}

theorem intern_of_symbol? {label : String} {symbol : Symbol}
    (h : table.symbol? label = some symbol) : table.intern label = .ok (symbol, table) := by
  simp only [intern, h]

theorem Lists.next_add_one (h : table.Lists labels) :
    (table.next + 1).toNat = table.next.toNat + 1 := by
  have hlt := h.size_lt
  simp only [size, Symbol.limit] at hlt
  rw [UInt32.toNat_add]
  simp
  omega

theorem Lists.push (h : table.Lists labels) {label : String} {symbol : Symbol}
    (hnew : label ∉ labels) (hsymbol : Symbol.ofNumber table.next = .ok symbol)
    (hnext : (table.next + 1).toNat ≠ Symbol.limit) :
    Lists ⟨table.next + 1, table.labels.push label, table.symbols.insert label symbol⟩
      (labels ++ [label]) where
  labels_eq := by
    rw [Array.toList_push, h.labels_eq, eraseDups_concat, if_neg hnew]
  next_eq := by
    rw [h.next_add_one, h.next_eq, Array.size_push]
  symbol?_eq_some_iff other found := by
    have hknown := h.symbol?_eq_some_iff other found
    have hid : symbol.id = table.labels.size := (Symbol.id_of_ofNumber hsymbol).trans h.next_eq
    simp only [symbol?, Std.TreeMap.getElem?_insert, Array.getElem?_push,
      Std.LawfulEqCmp.compare_eq_iff_eq] at hknown ⊢
    by_cases hlabel : label = other
    · subst hlabel
      rw [if_pos rfl, Option.some.injEq, ← Symbol.id_inj, hid]
      have hother : table.labels[found.id]? ≠ some label := by
        intro hfound
        exact hnew (h.exists_symbol.mp ⟨found, hknown.mpr hfound⟩)
      by_cases hplace : found.id = table.labels.size
      · simp [hplace]
      · simp [hplace, hother, Ne.symm hplace]
    · rw [if_neg hlabel, hknown]
      by_cases hplace : found.id = table.labels.size
      · simp [hplace, hlabel]
      · rw [if_neg hplace]
  size_lt := by
    have hlt := h.size_lt
    simp only [size] at hlt ⊢
    rw [h.next_add_one] at hnext ⊢
    omega

theorem Lists.of_repeated (h : table.Lists labels) {label : String} (hlabel : label ∈ labels) :
    table.Lists (labels ++ [label]) where
  labels_eq := by
    rw [eraseDups_concat, if_pos hlabel]
    exact h.labels_eq
  next_eq := h.next_eq
  symbol?_eq_some_iff := h.symbol?_eq_some_iff
  size_lt := h.size_lt

theorem Lists.intern (h : table.Lists labels) (label : String)
    (hlimit : Symbol.limit ≤ (labels ++ [label]).eraseDups.length → allowed .invalidSymbol) :
    Meets allowed (fun result => result.2.symbol? label = some result.1 ∧
      result.2.Lists (labels ++ [label])) (table.intern label) := by
  cases hsymbol : table.symbol? label with
  | some symbol =>
      rw [intern_of_symbol? hsymbol]
      exact ⟨hsymbol, h.of_repeated (h.exists_symbol.mp ⟨symbol, hsymbol⟩)⟩
  | none =>
      have hnew : label ∉ labels := by
        rw [← h.exists_symbol, hsymbol]
        simp
      obtain ⟨symbol, hdrawn⟩ := Symbol.exists_ofNumber h.size_lt
      simp only [SymbolTable.intern, hsymbol, hdrawn, bind, Except.bind]
      split
      · rename_i hlast
        rw [h.next_add_one] at hlast
        apply hlimit
        rw [eraseDups_concat, if_neg hnew, List.length_append, ← h.size_eq, size]
        simp
        omega
      · rename_i hnext
        refine ⟨?_, h.push hnew hdrawn hnext⟩
        simp [symbol?]

theorem Lists.internAll (h : table.Lists labels) (more : List String)
    (hlimit : Symbol.limit ≤ (labels ++ more).eraseDups.length → allowed .invalidSymbol) :
    Meets allowed (fun result => result.Lists (labels ++ more)) (table.internAll more) := by
  refine Meets.foldlM (fun done (table : SymbolTable) => table.Lists (labels ++ done)) ?_ ?_
  · rw [List.append_nil]
    exact h
  · intro done label rest table hmore htable
    rw [← List.append_assoc]
    apply Meets.map
    apply (htable.intern label ?_).mono fun result hresult => hresult.2
    intro hlarge
    apply hlimit
    have hextends := eraseDups_append_extends ((labels ++ done) ++ [label]) rest
    have hlabels : labels ++ more = (labels ++ done) ++ [label] ++ rest := by
      simp [hmore]
    rw [hlabels]
    exact Nat.le_trans hlarge hextends.length_le

end Interning

end SymbolTable

/-! ## Sets of interned symbols -/

namespace SymbolSet

theorem contains_reserve (set : SymbolSet) (table : SymbolTable) (symbol : Symbol) :
    (set.reserve table).contains symbol = set.contains symbol := by
  unfold contains reserve
  by_cases hroom : symbol.id < set.flags.size
  · rw [Array.getElem?_append_left hroom]
  · rw [Array.getElem?_append_right (by omega), Array.getElem?_replicate,
      Array.getElem?_eq_none (by omega : set.flags.size ≤ symbol.id)]
    split <;> rfl

theorem assign_meets {allowed : Fault → Prop} {set : SymbolSet} {symbol : Symbol}
    (hroom : symbol.id < set.capacity) :
    Meets allowed (fun result => result.capacity = set.capacity ∧
      ∀ other, result.contains other = (decide (other = symbol) || set.contains other))
      (set.assign symbol true) := by
  unfold capacity at hroom
  rw [assign, dif_pos hroom]
  refine ⟨by simp [capacity], ?_⟩
  intro other
  by_cases hother : other = symbol
  · simp [contains, hother]
  · have hid : symbol.id ≠ other.id := fun h => hother (Symbol.id_inj.mp h.symm)
    simp [contains, hother, hid]

theorem ofLabels_meets {allowed : Fault → Prop} {table : SymbolTable} {known : List String}
    (htable : table.Lists known) (labels : List String) :
    Meets allowed (fun set => ∀ symbol, set.contains symbol = true ↔
      ∃ label ∈ labels, table.symbol? label = some symbol) (ofLabels table labels) := by
  unfold ofLabels
  refine (Meets.foldlM (fun done (set : SymbolSet) => set.capacity = table.size ∧
    ∀ symbol, set.contains symbol = true ↔ symbol ∈ done) ?_ ?_).mono ?_
  · refine ⟨by simp [capacity, reserve, empty], fun symbol => ?_⟩
    rw [contains_reserve]
    simp [contains, empty]
  · rintro done symbol rest set hitems ⟨hcapacity, hset⟩
    have hsymbol : symbol ∈ labels.filterMap table.symbol? := by
      rw [hitems]
      simp
    obtain ⟨label, -, hlabel⟩ := List.mem_filterMap.mp hsymbol
    have hroom : symbol.id < set.capacity := by
      rw [hcapacity]
      exact htable.id_lt hlabel
    refine (assign_meets hroom).mono fun result hresult => ⟨hresult.1.trans hcapacity, ?_⟩
    intro other
    rw [hresult.2, Bool.or_eq_true, decide_eq_true_eq, hset, List.mem_append, List.mem_singleton]
    exact Or.comm
  · rintro set ⟨-, hset⟩ symbol
    rw [hset, List.mem_filterMap]

theorem lt_capacity_of_contains {set : SymbolSet} {symbol : Symbol}
    (h : set.contains symbol = true) : symbol.id < set.capacity := by
  unfold contains at h
  cases hflag : set.flags[symbol.id]? with
  | none => simp [hflag] at h
  | some flag => exact (Array.getElem?_eq_some_iff.mp hflag).1

theorem map_id_members {set : SymbolSet} {count : Nat} (hcount : count ≤ Symbol.limit)
    (h : ∀ symbol, set.contains symbol = true ↔ symbol.id < count) :
    set.members.map Symbol.id = List.range count := by
  have hfirst : ∀ room, (((List.range room).filterMap Symbol.ofNat?).filter
      set.contains).map Symbol.id = List.range (min room count) := by
    intro room
    induction room with
    | zero => simp
    | succ room ih =>
        rw [List.range_succ, List.filterMap_append, List.filter_append, List.map_append, ih]
        by_cases hlimit : room < Symbol.limit
        · obtain ⟨symbol, rfl⟩ := Symbol.exists_id hlimit
          by_cases hroom : symbol.id < count
          · have hcontains := (h symbol).mpr hroom
            rw [Nat.min_eq_left (by omega), Nat.min_eq_left (by omega), List.range_succ]
            simp [hcontains]
          · have hcontains := mt (h symbol).mp hroom
            rw [Nat.min_eq_right (by omega), Nat.min_eq_right (by omega)]
            simp [hcontains]
        · rw [Nat.min_eq_right (by omega), Nat.min_eq_right (by omega)]
          simp [Symbol.ofNat?, hlimit]
  have hcapacity : count ≤ set.capacity := by
    apply Nat.le_of_not_lt
    intro hlt
    obtain ⟨symbol, hsymbol⟩ := Symbol.exists_id (Nat.lt_of_lt_of_le hlt hcount)
    have hcontains := lt_capacity_of_contains ((h symbol).mpr (hsymbol ▸ hlt))
    rw [hsymbol] at hcontains
    exact Nat.lt_irrefl _ hcontains
  have hmembers := hfirst set.capacity
  rw [Nat.min_eq_right hcapacity] at hmembers
  exact hmembers

end SymbolSet

end ChartParsing
