import ChartParsing.Proofs.Interning
import Mathlib.Data.Set.Function
import Mathlib.Order.Interval.Set.Defs

/-!
# Labels and their numbers

However labels come in, and however often, a symbol table pairs them with the
numbers from zero up, one for each label, in the order in which they first came
in.  A label that comes in again leaves the table as it is, and a pair once made
is never changed.
-/

namespace ChartParsing.SymbolTable

open Outcome FirstAppearance

/-- The table pairs exactly these labels with the numbers below its size. -/
structure Numbers (table : SymbolTable) (labels : List String) : Prop where
  size_eq : table.size = labels.eraseDups.length
  bijOn_id : Set.BijOn (fun label => (table.symbol? label).map Symbol.id)
    {label | label ∈ labels} (some '' Set.Iio table.size)
  symbol?_eq_some_iff : ∀ label symbol,
    table.symbol? label = some symbol ↔ labels.eraseDups[symbol.id]? = some label
  symbol?_eq_none_iff : ∀ label, table.symbol? label = none ↔ label ∉ labels
  label_of_symbol? : ∀ label ∈ labels, ∃ symbol,
    table.symbol? label = some symbol ∧ table.label symbol = .ok label
  symbol?_of_label : ∀ symbol, symbol.id < table.size → ∃ label,
    table.label symbol = .ok label ∧ table.symbol? label = some symbol

/-- Labels keep their symbols, and symbols their labels. -/
structure KeptBy (table later : SymbolTable) : Prop where
  symbol?_kept : ∀ label symbol, table.symbol? label = some symbol →
    later.symbol? label = some symbol
  label_kept : ∀ symbol label, table.label symbol = .ok label → later.label symbol = .ok label

section Lists

variable {table later : SymbolTable} {labels more : List String}

theorem Lists.bijOn_id (h : table.Lists labels) :
    Set.BijOn (fun label => (table.symbol? label).map Symbol.id) {label | label ∈ labels}
      (some '' Set.Iio table.size) := by
  refine ⟨?_, ?_, ?_⟩
  · intro label hlabel
    obtain ⟨symbol, hsymbol⟩ := h.exists_symbol.mpr hlabel
    exact ⟨symbol.id, h.id_lt hsymbol, by simp [hsymbol]⟩
  · intro label hlabel other hother hsame
    obtain ⟨symbol, hsymbol⟩ := h.exists_symbol.mpr hlabel
    obtain ⟨otherSymbol, hotherSymbol⟩ := h.exists_symbol.mpr hother
    simp only [hsymbol, hotherSymbol, Option.map_some, Option.some.injEq, Symbol.id_inj] at hsame
    exact h.label_inj hsymbol (hsame ▸ hotherSymbol)
  · rintro _ ⟨id, hid, rfl⟩
    obtain ⟨symbol, rfl⟩ := Symbol.exists_id (Nat.lt_trans hid h.size_lt)
    obtain ⟨label, hlabel, hsymbol⟩ := h.exists_label hid
    exact ⟨label, hlabel, by simp [hsymbol]⟩

theorem Lists.numbers (h : table.Lists labels) : table.Numbers labels where
  size_eq := h.size_eq
  bijOn_id := h.bijOn_id
  symbol?_eq_some_iff label symbol := by
    rw [h.symbol?_eq_some_iff, ← h.labels_eq, Array.getElem?_toList]
  symbol?_eq_none_iff label := by
    rw [← h.exists_symbol, Option.eq_none_iff_forall_ne_some, not_exists]
  label_of_symbol? label hlabel := by
    obtain ⟨symbol, hsymbol⟩ := h.exists_symbol.mpr hlabel
    exact ⟨symbol, hsymbol, h.label_eq_ok_iff.mpr hsymbol⟩
  symbol?_of_label symbol hsymbol := by
    obtain ⟨label, -, hlabel⟩ := h.exists_label hsymbol
    exact ⟨label, h.label_eq_ok_iff.mpr hlabel, hlabel⟩

theorem Lists.keptBy (h : table.Lists labels) (hlater : later.Lists (labels ++ more)) :
    table.KeptBy later where
  symbol?_kept label symbol := h.symbol?_of_append hlater
  label_kept symbol label := by
    rw [h.label_eq_ok_iff, hlater.label_eq_ok_iff]
    exact h.symbol?_of_append hlater

theorem Lists.of_internAll (h : table.Lists labels) (hintern : table.internAll more = .ok later) :
    later.Lists (labels ++ more) := by
  have hmeets : Meets (fun _ => True) _ (table.internAll more) := h.internAll more fun _ => trivial
  exact hmeets.of_eq_ok hintern

theorem Lists.of_intern (h : table.Lists labels) {label : String} {symbol : Symbol}
    (hintern : table.intern label = .ok (symbol, later)) :
    later.symbol? label = some symbol ∧ later.Lists (labels ++ [label]) := by
  have hmeets : Meets (fun _ => True) _ (table.intern label) := h.intern label fun _ => trivial
  exact hmeets.of_eq_ok hintern

theorem exists_internAll (hroom : labels.eraseDups.length < Symbol.limit) :
    ∃ table, empty.internAll labels = .ok table :=
  (lists_empty.internAll labels fun hlarge => Nat.not_lt.mpr hlarge hroom).exists_ok

end Lists

/-- One call among others: the tables before and after it, and the symbol it answers. -/
theorem calls_of_internAll {done rest : List String} {label : String} {table : SymbolTable}
    (h : empty.internAll (done ++ label :: rest) = .ok table) :
    ∃ before symbol after, empty.internAll done = .ok before ∧
      before.intern label = .ok (symbol, after) ∧ after.internAll rest = .ok table := by
  rw [internAll, List.foldlM_append] at h
  obtain ⟨before, hbefore, h⟩ := bind_eq_ok.mp h
  rw [List.foldlM_cons] at h
  obtain ⟨after, hafter, hrest⟩ := bind_eq_ok.mp h
  obtain ⟨⟨symbol, _⟩, hintern, rfl⟩ := map_eq_ok.mp hafter
  exact ⟨before, symbol, _, hbefore, hintern, hrest⟩

/--
As long as the labels do not outnumber the symbols, every call succeeds and answers the symbol of
its label, and after every call the labels so far are numbered in the order of their first
appearance; a label that was there changes nothing, and what a table knows all later ones know.
-/
theorem interning_numbers (labels : List String)
    (hroom : labels.eraseDups.length < Symbol.limit) :
    ∃ table, empty.internAll labels = .ok table ∧ table.Numbers labels ∧
      ∀ done label rest, labels = done ++ label :: rest →
        ∃ before symbol after, empty.internAll done = .ok before ∧
          before.intern label = .ok (symbol, after) ∧ after.internAll rest = .ok table ∧
          before.Numbers done ∧ after.Numbers (done ++ [label]) ∧
          after.symbol? label = some symbol ∧ (label ∈ done → after = before) ∧
          before.KeptBy after ∧ after.KeptBy table := by
  obtain ⟨table, htable⟩ := exists_internAll hroom
  have hlists := lists_empty.of_internAll htable
  refine ⟨table, htable, hlists.numbers, ?_⟩
  rintro done label rest rfl
  obtain ⟨before, symbol, after, hbefore, hintern, hrest⟩ := calls_of_internAll htable
  have hdone := lists_empty.of_internAll hbefore
  obtain ⟨hsymbol, hafter⟩ := hdone.of_intern hintern
  refine ⟨before, symbol, after, hbefore, hintern, hrest, hdone.numbers, hafter.numbers, hsymbol,
    ?_, hdone.keptBy hafter, hafter.keptBy (hafter.of_internAll hrest)⟩
  intro hlabel
  obtain ⟨known, hknown⟩ := hdone.exists_symbol.mpr hlabel
  rw [intern_of_symbol? hknown] at hintern
  cases hintern
  rfl

theorem interning_numbers_repeated :
    ["b", "a", "b", ""].eraseDups.length < Symbol.limit ∧
      ∃ table, empty.internAll ["b", "a", "b", ""] = .ok table ∧
        table.Numbers ["b", "a", "b", ""] ∧ table.size = 3 ∧
        (∃ symbol, table.symbol? "" = some symbol ∧ symbol.id = 2) ∧
        table.symbol? "c" = none ∧
        ∃ before symbol, empty.internAll ["b", "a"] = .ok before ∧
          before.intern "b" = .ok (symbol, before) ∧ table.symbol? "b" = some symbol := by
  have hroom : ["b", "a", "b", ""].eraseDups.length < Symbol.limit := by decide
  obtain ⟨table, htable, hnumbers, hcalls⟩ := interning_numbers _ hroom
  obtain ⟨before, symbol, after, hbefore, hintern, -, -, -, hsymbol, hrepeated, -, hkept⟩ :=
    hcalls ["b", "a"] "b" [""] rfl
  rw [hrepeated (by simp)] at hintern hsymbol hkept
  refine ⟨hroom, table, htable, hnumbers, ?_, ?_, ?_, before, symbol, hbefore, hintern,
    hkept.symbol?_kept _ _ hsymbol⟩
  · rw [hnumbers.size_eq]
    decide
  · exact ⟨⟨3, by decide⟩, (hnumbers.symbol?_eq_some_iff _ _).mpr (by decide), rfl⟩
  · exact (hnumbers.symbol?_eq_none_iff _).mpr (by decide)

end ChartParsing.SymbolTable
