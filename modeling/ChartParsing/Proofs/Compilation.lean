import ChartParsing.Grammar.Compilation
import ChartParsing.Proofs.IndexedGrouping
import ChartParsing.Proofs.Interning
import ChartParsing.Proofs.NormalForm
import Mathlib.Data.List.Basic

/-!
# What a compiled grammar holds

Compilation takes the productions one by one, while symbols are still handed
out.  After any number of them the tables are the views of the rules met so
far: symbols for the nonterminals and then the terminals, and under every
right-hand side the heads of its rules, each counted once.  Compilation fails
only when the labels in use outnumber the symbols, or the productions the
machine words.
-/

namespace ChartParsing

open Outcome FirstAppearance

namespace SymbolTable

def pair? (table : SymbolTable) (labels : String × String) : Option (Symbol × Symbol) :=
  match table.symbol? labels.1, table.symbol? labels.2 with
  | some first, some second => some (first, second)
  | _, _ => none

def triple? (table : SymbolTable) (labels : (String × String) × String) :
    Option ((Symbol × Symbol) × Symbol) :=
  match table.pair? labels.1, table.symbol? labels.2 with
  | some pair, some symbol => some (pair, symbol)
  | _, _ => none

theorem pair?_eq_some_iff {table : SymbolTable} {first second : String}
    {symbols : Symbol × Symbol} :
    table.pair? (first, second) = some symbols ↔
      table.symbol? first = some symbols.1 ∧ table.symbol? second = some symbols.2 := by
  rcases symbols with ⟨firstSymbol, secondSymbol⟩
  unfold pair?
  cases table.symbol? first <;> cases table.symbol? second <;> simp

theorem triple?_eq_some_iff {table : SymbolTable} {first second third : String}
    {symbols : (Symbol × Symbol) × Symbol} :
    table.triple? ((first, second), third) = some symbols ↔
      table.symbol? first = some symbols.1.1 ∧ table.symbol? second = some symbols.1.2 ∧
        table.symbol? third = some symbols.2 := by
  rcases symbols with ⟨pair, symbol⟩
  rw [← and_assoc, ← pair?_eq_some_iff]
  unfold triple?
  cases table.pair? (first, second) <;> cases table.symbol? third <;> simp

section Growth

variable {table table' : SymbolTable} {labels more : List String}

theorem Lists.symbol?_append_of_mem (h : table.Lists labels) (h' : table'.Lists (labels ++ more))
    {label : String} (hlabel : label ∈ labels) : table'.symbol? label = table.symbol? label := by
  obtain ⟨symbol, hsymbol⟩ := h.exists_symbol.mpr hlabel
  rw [hsymbol]
  exact h.symbol?_of_append h' hsymbol

theorem Lists.filterMap_pair?_append (h : table.Lists labels)
    (h' : table'.Lists (labels ++ more)) {pairs : List (String × String)}
    (hpairs : ∀ pair ∈ pairs, pair.1 ∈ labels ∧ pair.2 ∈ labels) :
    pairs.filterMap table'.pair? = pairs.filterMap table.pair? := by
  apply List.filterMap_congr
  intro pair hpair
  simp only [pair?, h.symbol?_append_of_mem h' (hpairs pair hpair).1,
    h.symbol?_append_of_mem h' (hpairs pair hpair).2]

theorem Lists.filterMap_triple?_append (h : table.Lists labels)
    (h' : table'.Lists (labels ++ more)) {triples : List ((String × String) × String)}
    (htriples : ∀ triple ∈ triples,
      triple.1.1 ∈ labels ∧ triple.1.2 ∈ labels ∧ triple.2 ∈ labels) :
    triples.filterMap table'.triple? = triples.filterMap table.triple? := by
  apply List.filterMap_congr
  intro triple htriple
  obtain ⟨hfirst, hsecond, hthird⟩ := htriples triple htriple
  simp only [triple?, pair?, h.symbol?_append_of_mem h' hfirst,
    h.symbol?_append_of_mem h' hsecond, h.symbol?_append_of_mem h' hthird]

end Growth

end SymbolTable

namespace Grammar

/-- The tables of the grammar are what became of these productions. -/
structure Indexes (grammar : Grammar) (nonterminals : List String) (rules : List Production) :
    Prop where
  lhs_mem : ∀ rule ∈ rules, rule.lhs ∈ nonterminals
  symbols : grammar.symbols.Lists (vocabulary nonterminals rules)
  isNonterminal_iff : ∀ symbol, grammar.isNonterminal symbol = true ↔
    ∃ label ∈ nonterminals, grammar.symbol? label = some symbol
  unary : grammar.unary.Lists
    ((rules.filterMap (Production.unary? nonterminals)).filterMap grammar.symbols.pair?)
  binary : grammar.binary.Lists
    ((rules.filterMap (Production.binary? nonterminals)).filterMap grammar.symbols.triple?)
  unary_count : grammar.numUnaryRules = grammar.unary.size
  binary_count : grammar.numBinaryRules = Grouping.size ⟨grammar.binary.groups⟩

section Indexes

variable {grammar : Grammar} {nonterminals : List String} {rules : List Production}

theorem Indexes.nonterminal?_eq_some_iff (h : grammar.Indexes nonterminals rules)
    {label : String} {symbol : Symbol} :
    grammar.nonterminal? label = some symbol ↔
      grammar.symbol? label = some symbol ∧ label ∈ nonterminals := by
  rw [nonterminal?, Option.filter_eq_some_iff, h.isNonterminal_iff]
  constructor
  · rintro ⟨hsymbol, other, hother, hotherSymbol⟩
    rw [h.symbols.label_inj hsymbol hotherSymbol]
    exact ⟨hotherSymbol, hother⟩
  · rintro ⟨hsymbol, hlabel⟩
    exact ⟨hsymbol, label, hlabel, hsymbol⟩

theorem Indexes.exists_symbol (h : grammar.Indexes nonterminals rules) {label : String}
    (hlabel : label ∈ nonterminals) : ∃ symbol, grammar.symbol? label = some symbol :=
  h.symbols.exists_symbol.mpr (List.mem_append_left _ hlabel)

theorem Indexes.nonterminal?_eq_none_iff (h : grammar.Indexes nonterminals rules)
    {label : String} : grammar.nonterminal? label = none ↔ label ∉ nonterminals := by
  constructor
  · intro hnone hlabel
    obtain ⟨symbol, hsymbol⟩ := h.exists_symbol hlabel
    rw [h.nonterminal?_eq_some_iff.mpr ⟨hsymbol, hlabel⟩] at hnone
    cases hnone
  · intro hlabel
    rw [Option.eq_none_iff_forall_ne_some]
    intro symbol hsymbol
    exact hlabel (h.nonterminal?_eq_some_iff.mp hsymbol).2

theorem Indexes.label_eq_ok_iff (h : grammar.Indexes nonterminals rules) {label : String}
    {symbol : Symbol} :
    grammar.label symbol = .ok label ↔ grammar.symbol? label = some symbol :=
  h.symbols.label_eq_ok_iff

/-! ## Taking one more production -/

variable {rule : Production}

theorem Indexes.unary_labels (h : grammar.Indexes nonterminals rules) :
    ∀ pair ∈ rules.filterMap (Production.unary? nonterminals),
      pair.1 ∈ vocabulary nonterminals rules ∧ pair.2 ∈ vocabulary nonterminals rules := by
  rintro ⟨token, lhs⟩ hpair
  refine ⟨List.mem_append_right _ (List.mem_map_of_mem hpair), List.mem_append_left _ ?_⟩
  obtain ⟨rule, hrule, hunary⟩ := List.mem_filterMap.mp hpair
  rw [Production.unary?_eq_some_iff] at hunary
  have hlhs := h.lhs_mem rule hrule
  rw [hunary.1] at hlhs
  exact hlhs

theorem Indexes.binary_labels (h : grammar.Indexes nonterminals rules) :
    ∀ triple ∈ rules.filterMap (Production.binary? nonterminals),
      triple.1.1 ∈ vocabulary nonterminals rules ∧ triple.1.2 ∈ vocabulary nonterminals rules ∧
        triple.2 ∈ vocabulary nonterminals rules := by
  rintro ⟨⟨left, right⟩, lhs⟩ htriple
  obtain ⟨rule, hrule, hbinary⟩ := List.mem_filterMap.mp htriple
  rw [Production.binary?_eq_some_iff] at hbinary
  have hlhs := h.lhs_mem rule hrule
  rw [hbinary.1] at hlhs
  exact ⟨List.mem_append_left _ hbinary.2.1, List.mem_append_left _ hbinary.2.2,
    List.mem_append_left _ hlhs⟩

theorem Indexes.lhs_mem_concat (h : grammar.Indexes nonterminals rules)
    (hlhs : rule.lhs ∈ nonterminals) : ∀ other ∈ rules ++ [rule], other.lhs ∈ nonterminals := by
  intro other hother
  rcases List.mem_append.mp hother with hother | hother
  · exact h.lhs_mem other hother
  · rw [List.mem_singleton.mp hother]
    exact hlhs

theorem Indexes.of_dropped (h : grammar.Indexes nonterminals rules)
    (hlhs : rule.lhs ∈ nonterminals) (hunary : rule.unary? nonterminals = none)
    (hbinary : rule.binary? nonterminals = none) :
    grammar.Indexes nonterminals (rules ++ [rule]) where
  lhs_mem := h.lhs_mem_concat hlhs
  symbols := by
    simpa [vocabulary, hunary] using h.symbols
  isNonterminal_iff := h.isNonterminal_iff
  unary := by
    simpa [hunary] using h.unary
  binary := by
    simpa [hbinary] using h.binary
  unary_count := h.unary_count
  binary_count := h.binary_count

theorem Indexes.of_unary (h : grammar.Indexes nonterminals rules)
    (hlhs : rule.lhs ∈ nonterminals) {label : String}
    (hunary : rule.unary? nonterminals = some (label, rule.lhs))
    (hbinary : rule.binary? nonterminals = none) {head terminal : Symbol}
    {symbols : SymbolTable} {unary : Grouping Symbol Symbol} {numUnaryRules : Nat}
    (hhead : grammar.symbol? rule.lhs = some head)
    (hsymbols : symbols.Lists (vocabulary nonterminals rules ++ [label]))
    (hterminal : symbols.symbol? label = some terminal)
    (hgroups : unary.Lists ((rules.filterMap (Production.unary? nonterminals)).filterMap
      grammar.symbols.pair? ++ [(terminal, head)]))
    (hcount : numUnaryRules = unary.size) :
    Indexes { grammar with symbols, unary, numUnaryRules } nonterminals (rules ++ [rule]) where
  lhs_mem := h.lhs_mem_concat hlhs
  symbols := by
    simpa [vocabulary, hunary] using hsymbols
  isNonterminal_iff symbol := by
    change grammar.isNonterminal symbol = true ↔
      ∃ label ∈ nonterminals, symbols.symbol? label = some symbol
    rw [h.isNonterminal_iff]
    apply exists_congr
    intro other
    rw [and_congr_right_iff]
    intro hother
    rw [h.symbols.symbol?_append_of_mem hsymbols (List.mem_append_left _ hother)]
    rfl
  unary := by
    have hnew : symbols.pair? (label, rule.lhs) = some (terminal, head) :=
      SymbolTable.pair?_eq_some_iff.mpr ⟨hterminal, h.symbols.symbol?_of_append hsymbols hhead⟩
    rw [List.filterMap_append, List.filterMap_append,
      h.symbols.filterMap_pair?_append hsymbols h.unary_labels]
    simpa [hunary, hnew] using hgroups
  binary := by
    rw [List.filterMap_append, List.filterMap_append,
      h.symbols.filterMap_triple?_append hsymbols h.binary_labels]
    simpa [hbinary] using h.binary
  unary_count := hcount
  binary_count := h.binary_count

theorem Indexes.of_binary (h : grammar.Indexes nonterminals rules)
    (hlhs : rule.lhs ∈ nonterminals) {left right : String}
    (hunary : rule.unary? nonterminals = none)
    (hbinary : rule.binary? nonterminals = some ((left, right), rule.lhs))
    {head leftSymbol rightSymbol : Symbol} {binary : IndexedGrouping (Symbol × Symbol) Symbol}
    {numBinaryRules : Nat} (hhead : grammar.symbol? rule.lhs = some head)
    (hleft : grammar.symbol? left = some leftSymbol)
    (hright : grammar.symbol? right = some rightSymbol)
    (hgroups : binary.Lists ((rules.filterMap (Production.binary? nonterminals)).filterMap
      grammar.symbols.triple? ++ [((leftSymbol, rightSymbol), head)]))
    (hcount : numBinaryRules = Grouping.size ⟨binary.groups⟩) :
    Indexes { grammar with binary, numBinaryRules } nonterminals (rules ++ [rule]) where
  lhs_mem := h.lhs_mem_concat hlhs
  symbols := by
    simpa [vocabulary, hunary] using h.symbols
  isNonterminal_iff := h.isNonterminal_iff
  unary := by
    simpa [hunary] using h.unary
  binary := by
    have hnew : grammar.symbols.triple? ((left, right), rule.lhs) =
        some ((leftSymbol, rightSymbol), head) :=
      SymbolTable.triple?_eq_some_iff.mpr ⟨hleft, hright, hhead⟩
    simpa [hbinary, hnew] using hgroups
  unary_count := h.unary_count
  binary_count := hcount

/-! ## Compiling -/

section Compiling

variable {allowed : Fault → Prop}

theorem counted_meets {κ α : Type} [DecidableEq κ] [DecidableEq α] {before after : Grouping κ α}
    {pairs : List (κ × α)} {pair : κ × α} {count : Nat} (hbefore : before.Lists pairs)
    (hafter : after.Lists (pairs ++ [pair])) (hnew : pair ∉ pairs) (hcount : count = before.size)
    (hoverflow : Word.limit ≤ pairs.length + 1 → allowed .overflow) :
    Meets allowed (fun result => result = after.size) (Word.checked (count + 1)) := by
  have hle := hbefore.size_le
  refine (checked_meets fun hlarge => hoverflow (by omega)).mono fun result hresult => ?_
  rw [hresult.1, hcount, hbefore.size_concat_of_not_mem hafter hnew]

theorem length_filterMap_filterMap_le {α β γ : Type} (f : α → Option β) (g : β → Option γ)
    (items : List α) : ((items.filterMap f).filterMap g).length ≤ items.length :=
  Nat.le_trans (List.length_filterMap_le _ _) (List.length_filterMap_le _ _)

/-- The production is taken into the tables, and the notice of it is the right diagnostic. -/
def Takes (nonterminals : List String) (rules : List Production) (rule : Production)
    (result : Grammar × Option Notice) : Prop :=
  result.1.Indexes nonterminals (rules ++ [rule]) ∧
    result.2.bind Notice.diagnostic? = rule.diagnostic? nonterminals

theorem Indexes.addUnary (h : grammar.Indexes nonterminals rules)
    (hlhs : rule.lhs ∈ nonterminals) {head : Symbol}
    (hhead : grammar.symbol? rule.lhs = some head) {label : String} (hrhs : rule.rhs = [label])
    (hlimit : Symbol.limit ≤ (vocabulary nonterminals (rules ++ [rule])).eraseDups.length →
      allowed .invalidSymbol)
    (hoverflow : Word.limit ≤ rules.length + 1 → allowed .overflow) :
    Meets allowed (Takes nonterminals rules rule) (grammar.addUnary head label rule) := by
  have hbinary : rule.binary? nonterminals = none := by
    simp [Production.binary?, hrhs]
  cases hlabel : grammar.nonterminal? label with
  | some symbol =>
      have hmem := (h.nonterminal?_eq_some_iff.mp hlabel).2
      simp only [Grammar.addUnary, hlabel]
      refine ⟨h.of_dropped hlhs ?_ hbinary, ?_⟩
      · simp [Production.unary?, hrhs, hmem]
      · simp [Production.diagnostic?, Production.violation?, Notice.diagnostic?, hrhs, hmem]
  | none =>
      have hmem := h.nonterminal?_eq_none_iff.mp hlabel
      have hunary : rule.unary? nonterminals = some (label, rule.lhs) := by
        simp [Production.unary?, hrhs, hmem]
      have hfine : rule.diagnostic? nonterminals = none := by
        simp [Production.diagnostic?, Production.violation?, hrhs, hmem]
      have hvocabulary : vocabulary nonterminals (rules ++ [rule]) =
          vocabulary nonterminals rules ++ [label] := by
        simp [vocabulary, hunary]
      rw [hvocabulary] at hlimit
      simp only [Grammar.addUnary, hlabel]
      apply (h.symbols.intern label hlimit).bind
      rintro ⟨terminal, symbols⟩ ⟨hterminal, hsymbols⟩
      have hgroups := h.unary.insert? terminal head
      dsimp only
      split
      · rename_i unary hinsert
        rw [hinsert] at hgroups
        have hle := length_filterMap_filterMap_le (Production.unary? nonterminals)
          grammar.symbols.pair? rules
        apply (counted_meets h.unary hgroups.2 hgroups.1 h.unary_count
          fun hlarge => hoverflow (by omega)).bind
        intro numUnaryRules hcount
        exact ⟨h.of_unary hlhs hunary hbinary hhead hsymbols hterminal hgroups.2 hcount,
          hfine.symm⟩
      · rename_i hinsert
        rw [hinsert] at hgroups
        exact ⟨h.of_unary hlhs hunary hbinary hhead hsymbols hterminal hgroups.2 h.unary_count,
          hfine.symm⟩

theorem Indexes.addBinary (h : grammar.Indexes nonterminals rules)
    (hlhs : rule.lhs ∈ nonterminals) {head : Symbol}
    (hhead : grammar.symbol? rule.lhs = some head) {left right : String}
    (hrhs : rule.rhs = [left, right])
    (hoverflow : Word.limit ≤ rules.length + 1 → allowed .overflow) :
    Meets allowed (Takes nonterminals rules rule) (grammar.addBinary head left right rule) := by
  have hunary : rule.unary? nonterminals = none := by
    simp [Production.unary?, hrhs]
  unfold Grammar.addBinary
  split
  · rename_i leftSymbol rightSymbol hleft hright
    rw [h.nonterminal?_eq_some_iff] at hleft hright
    have hbinary : rule.binary? nonterminals = some ((left, right), rule.lhs) := by
      simp [Production.binary?, hrhs, hleft.2, hright.2]
    have hfine : rule.diagnostic? nonterminals = none := by
      simp [Production.diagnostic?, Production.violation?, hrhs, hleft.2, hright.2]
    obtain ⟨new, binary, hinsert, hgroups, hnew⟩ :=
      h.binary.insert (leftSymbol, rightSymbol) head
    simp only [hinsert, bind, Except.bind]
    split
    · rename_i htrue
      have hle := length_filterMap_filterMap_le (Production.binary? nonterminals)
        grammar.symbols.triple? rules
      apply (counted_meets h.binary.view hgroups.view (hnew.mp htrue) h.binary_count
        fun hlarge => hoverflow (by omega)).bind
      intro numBinaryRules hcount
      exact ⟨h.of_binary hlhs hunary hbinary hhead hleft.1 hright.1 hgroups hcount, hfine.symm⟩
    · rename_i hfalse
      have hcount : grammar.numBinaryRules = Grouping.size ⟨binary.groups⟩ := by
        rw [h.binary_count,
          h.binary.view.size_concat_of_mem hgroups.view (not_not.mp (mt hnew.mpr hfalse))]
      exact ⟨h.of_binary hlhs hunary hbinary hhead hleft.1 hright.1 hgroups hcount, hfine.symm⟩
  · rename_i hnot
    have hmixed : ¬ (left ∈ nonterminals ∧ right ∈ nonterminals) := by
      rintro ⟨hleft, hright⟩
      obtain ⟨leftSymbol, hleftSymbol⟩ := h.exists_symbol hleft
      obtain ⟨rightSymbol, hrightSymbol⟩ := h.exists_symbol hright
      exact hnot leftSymbol rightSymbol (h.nonterminal?_eq_some_iff.mpr ⟨hleftSymbol, hleft⟩)
        (h.nonterminal?_eq_some_iff.mpr ⟨hrightSymbol, hright⟩)
    refine ⟨h.of_dropped hlhs hunary ?_, ?_⟩
    · simp only [Production.binary?, hrhs]
      exact if_neg hmixed
    · simp only [Production.diagnostic?, Production.violation?, hrhs, if_neg hmixed]
      rfl

theorem Indexes.add (h : grammar.Indexes nonterminals rules) (hlhs : rule.lhs ∈ nonterminals)
    (hlimit : Symbol.limit ≤ (vocabulary nonterminals (rules ++ [rule])).eraseDups.length →
      allowed .invalidSymbol)
    (hoverflow : Word.limit ≤ rules.length + 1 → allowed .overflow) :
    Meets allowed (Takes nonterminals rules rule) (grammar.add rule) := by
  obtain ⟨head, hhead⟩ := h.exists_symbol hlhs
  rw [Grammar.add, SymbolTable.intern_of_symbol? hhead]
  dsimp only [bind, Except.bind]
  split
  · rename_i label hrhs
    exact h.addUnary hlhs hhead hrhs hlimit hoverflow
  · rename_i left right hrhs
    exact h.addBinary hlhs hhead hrhs hoverflow
  · rename_i hone htwo
    refine ⟨h.of_dropped hlhs ?_ ?_, ?_⟩
    · rw [Production.unary?]
      split
      · rename_i label hrhs
        exact absurd hrhs (hone label)
      · rfl
    · rw [Production.binary?]
      split
      · rename_i left right hrhs
        exact absurd hrhs (htwo left right)
      · rfl
    · rw [Production.diagnostic?, Production.violation?]
      split
      · rename_i label hrhs
        exact absurd hrhs (hone label)
      · rename_i left right hrhs
        exact absurd hrhs (htwo left right)
      · rfl

theorem ofHeads_meets (labels : List String)
    (hlimit : Symbol.limit ≤ labels.eraseDups.length → allowed .invalidSymbol) :
    Meets allowed (fun grammar => grammar.Indexes labels []) (ofHeads labels) := by
  apply (SymbolTable.lists_empty.internAll labels hlimit).bind
  intro symbols hsymbols
  apply (SymbolSet.ofLabels_meets hsymbols labels).bind
  intro nonterminals hnonterminals
  exact {
    lhs_mem := by simp
    symbols := by simpa [vocabulary] using hsymbols
    isNonterminal_iff := hnonterminals
    unary := Grouping.lists_empty
    binary := IndexedGrouping.lists_empty
    unary_count := rfl
    binary_count := rfl }

theorem vocabulary_append (nonterminals : List String) (done rest : List Production) :
    vocabulary nonterminals (done ++ rest) = vocabulary nonterminals done ++
      (rest.filterMap (Production.unary? nonterminals)).map Prod.fst := by
  simp [vocabulary]

theorem length_vocabulary_le (nonterminals : List String) (done rest : List Production) :
    (vocabulary nonterminals done).eraseDups.length ≤
      (vocabulary nonterminals (done ++ rest)).eraseDups.length := by
  rw [vocabulary_append]
  exact (eraseDups_append_extends _ _).length_le

/--
Compilation indexes the productions, or the labels in use outnumber the symbols, or the
productions the machine words.
-/
theorem compile_meets (allowed : Fault → Prop) (rules : List Production)
    (hlimit : Symbol.limit ≤ (vocabulary (headLabels rules) rules).eraseDups.length →
      allowed .invalidSymbol)
    (hoverflow : Word.limit ≤ rules.length → allowed .overflow) :
    Meets allowed (fun compilation => compilation.grammar.Indexes (headLabels rules) rules ∧
        compilation.diagnostics = rules.filterMap (Production.diagnostic? (headLabels rules)))
      (compile rules) := by
  have hhere : ∀ done rest, rules = done ++ rest →
      Symbol.limit ≤ (vocabulary (headLabels rules) done).eraseDups.length →
      allowed .invalidSymbol := by
    intro done rest hrules hlarge
    apply hlimit
    have hle := length_vocabulary_le (headLabels rules) done rest
    rw [← hrules] at hle
    omega
  have hheads : Meets allowed (fun grammar => grammar.Indexes (headLabels rules) [])
      (ofHeads (headLabels rules)) := by
    apply ofHeads_meets
    simpa [vocabulary] using hhere [] rules rfl
  apply hheads.bind
  intro bare hbare
  refine Meets.bind (Meets.foldlM (fun done (compilation : Compilation) =>
    compilation.grammar.Indexes (headLabels rules) done ∧
      compilation.diagnostics = done.filterMap (Production.diagnostic? (headLabels rules)))
    ⟨hbare, rfl⟩ ?_) ?_
  · rintro done rule rest compilation hrules ⟨hdone, hdiagnostics⟩
    have hlhs : rule.lhs ∈ headLabels rules := by
      rw [hrules]
      simp [headLabels]
    have hcounted : Word.limit ≤ done.length + 1 → allowed .overflow := by
      intro hlarge
      apply hoverflow
      rw [hrules, List.length_append, List.length_cons]
      omega
    apply Meets.bind (hdone.add hlhs (hhere (done ++ [rule]) rest (by simp [hrules])) hcounted)
    rintro ⟨grammar, notice⟩ ⟨hgrammar, hnotice⟩
    refine ⟨hgrammar, ?_⟩
    simp only [Compilation.diagnostics] at hdiagnostics hnotice ⊢
    cases notice with
    | none => simp [hdiagnostics, ← hnotice]
    | some notice =>
        rw [Option.bind_some] at hnotice
        simp [hdiagnostics, List.filterMap_cons, hnotice]
  · rintro ⟨grammar, notices⟩ ⟨hgrammar, hdiagnostics⟩
    refine ⟨{ hgrammar with isNonterminal_iff := fun symbol => ?_ }, hdiagnostics⟩
    rw [isNonterminal, SymbolSet.contains_reserve]
    exact hgrammar.isNonterminal_iff symbol

end Compiling

theorem indexes_of_compile {compilation : Compilation} (h : compile rules = .ok compilation) :
    compilation.grammar.Indexes (headLabels rules) rules :=
  ((compile_meets (fun _ => True) rules (fun _ => trivial) fun _ => trivial).of_eq_ok h).1

theorem diagnostics_of_compile {compilation : Compilation}
    (h : compile rules = .ok compilation) :
    compilation.diagnostics = rules.filterMap (Production.diagnostic? (headLabels rules)) :=
  ((compile_meets (fun _ => True) rules (fun _ => trivial) fun _ => trivial).of_eq_ok h).2

theorem exists_compile (hlabels : (vocabulary (headLabels rules) rules).eraseDups.length <
    Symbol.limit) (hrules : rules.length < Word.limit) :
    ∃ compilation, compile rules = .ok compilation :=
  (compile_meets (fun _ => False) rules (by omega) (by omega)).exists_ok

end Indexes

end Grammar

end ChartParsing
