import ChartParsing.Proofs.Compilation
import Mathlib.Data.List.Forall2
import Mathlib.Tactic.Convert

/-!
# The tables of a compiled grammar in labels

What compilation makes of a list of productions can be read off the list.
Labels get symbols in order of first appearance, nonterminals before terminals;
under every right-hand side stand the labels that expand to it; rules are
counted once; and each production out of normal form is reported.

The tables hold symbols and the list holds labels.  A list of symbols and a
list of labels that belong together item by item stay together when repeated
items are left out, because a symbol has one label and a label one symbol.
-/

namespace ChartParsing

open FirstAppearance Grouping

/-! ## Lists that belong together -/

section Together

variable {α β : Type}

/-- Each side determines the other. -/
def Unique (related : α → β → Prop) : Prop :=
  ∀ ⦃first second first' second'⦄, related first second → related first' second' →
    (first = first' ↔ second = second')

theorem Unique.prod {γ δ : Type} {first : α → β → Prop} {second : γ → δ → Prop}
    (hfirst : Unique first) (hsecond : Unique second) :
    Unique fun (pair : α × γ) (other : β × δ) => first pair.1 other.1 ∧ second pair.2 other.2 := by
  rintro ⟨a, c⟩ ⟨b, d⟩ ⟨a', c'⟩ ⟨b', d'⟩ ⟨hab, hcd⟩ ⟨hab', hcd'⟩
  rw [Prod.mk.injEq, Prod.mk.injEq, hfirst hab hab', hsecond hcd hcd']

theorem forall₂_filterMap {f : β → Option α} {items : List β}
    (h : ∀ item ∈ items, ∃ value, f item = some value) :
    List.Forall₂ (fun value item => f item = some value) (items.filterMap f) items := by
  induction items with
  | nil => exact .nil
  | cons item items ih =>
      obtain ⟨value, hvalue⟩ := h item (by simp)
      rw [List.filterMap_cons, hvalue]
      exact .cons hvalue (ih fun other hother => h other (by simp [hother]))

theorem forall₂_of_mem {related related' : α → β → Prop} {items : List α} {others : List β}
    (h : List.Forall₂ related items others)
    (himp : ∀ item ∈ items, ∀ other ∈ others, related item other → related' item other) :
    List.Forall₂ related' items others := by
  induction h with
  | nil => exact .nil
  | @cons item other items others hitem _ ih =>
      refine .cons (himp item (by simp) other (by simp) hitem) (ih ?_)
      intro item' hitem' other' hother'
      exact himp item' (by simp [hitem']) other' (by simp [hother'])

theorem forall₂_filter_ne [BEq α] [LawfulBEq α] [BEq β] [LawfulBEq β]
    {related : α → β → Prop} (hunique : Unique related) {first : α} {second : β}
    (hfirst : related first second) {items : List α} {others : List β}
    (h : List.Forall₂ related items others) :
    List.Forall₂ related (items.filter fun item => !item == first)
      (others.filter fun other => !other == second) := by
  induction h with
  | nil => exact .nil
  | @cons item other items others hitem _ ih =>
      by_cases heq : item = first
      · have hother := (hunique hitem hfirst).mp heq
        simpa [heq, hother] using ih
      · have hother := mt (hunique hitem hfirst).mpr heq
        simpa [heq, hother] using List.Forall₂.cons hitem ih

theorem forall₂_eraseDups [BEq α] [LawfulBEq α] [BEq β] [LawfulBEq β]
    {related : α → β → Prop} (hunique : Unique related) :
    ∀ {items : List α} {others : List β}, List.Forall₂ related items others →
      List.Forall₂ related items.eraseDups others.eraseDups
  | [], _, h => by
      cases h
      exact .nil
  | item :: items, _, h => by
      cases h with
      | cons hitem hitems =>
          rw [List.eraseDups_cons, List.eraseDups_cons]
          exact .cons hitem
            (forall₂_eraseDups hunique (forall₂_filter_ne hunique hitem hitems))
termination_by items => items.length
decreasing_by exact Nat.lt_succ_of_le (List.length_filter_le _ _)

theorem forall₂_membersIn {κ κ' : Type} [DecidableEq κ] [DecidableEq κ']
    {keys : κ → κ' → Prop} {related : α → β → Prop} (hunique : Unique keys)
    {pairs : List (κ × α)} {others : List (κ' × β)}
    (h : List.Forall₂ (fun pair other => keys pair.1 other.1 ∧ related pair.2 other.2)
      pairs others)
    {key : κ} {other : κ'} (hkey : keys key other) :
    List.Forall₂ related (membersIn pairs key) (membersIn others other) := by
  induction h with
  | nil => exact .nil
  | @cons first second pairs others hfirst _ ih =>
      by_cases heq : first.1 = key
      · have hsecond := (hunique hfirst.1 hkey).mp heq
        simpa [membersIn, heq, hsecond] using List.Forall₂.cons hfirst.2 ih
      · have hsecond := mt (hunique hfirst.1 hkey).mpr heq
        simpa [membersIn, heq, hsecond] using ih

theorem mapM_eq_ok_of_forall₂ {ε γ : Type} {f : α → Except ε γ} {g : β → γ} {items : List α}
    {others : List β} (h : List.Forall₂ (fun item other => f item = .ok (g other)) items others) :
    items.mapM f = .ok (others.map g) := by
  induction h with
  | nil => rfl
  | cons hitem _ ih =>
      rw [List.mapM_cons, hitem, ih]
      rfl

theorem forall₂_groups {κ κ' : Type} [DecidableEq κ] [DecidableEq κ'] [BEq κ'] [LawfulBEq κ']
    [DecidableEq α] [BEq β] [LawfulBEq β] {keys : κ → κ' → Prop} {related : α → β → Prop}
    (hkeys : Unique keys) (hunique : Unique related) {grouping : Grouping κ α}
    {pairs : List (κ × α)} {others : List (κ' × β)} (h : grouping.Lists pairs)
    (hpairs : List.Forall₂ (fun pair other => keys pair.1 other.1 ∧ related pair.2 other.2)
      pairs others) :
    List.Forall₂ (fun group key => keys group.1 key ∧
        List.Forall₂ related group.2 (membersIn others key).eraseDups)
      grouping.groups (others.map Prod.fst).eraseDups := by
  have heach : List.Forall₂ keys (pairs.map Prod.fst) (others.map Prod.fst) := by
    rw [List.forall₂_map_left_iff, List.forall₂_map_right_iff]
    exact hpairs.imp fun _ _ hpair => hpair.1
  rw [h, List.forall₂_map_left_iff]
  refine (forall₂_eraseDups hkeys heach).imp fun key other hkey => ⟨hkey, ?_⟩
  exact forall₂_eraseDups hunique (forall₂_membersIn hkeys hpairs hkey)

end Together

/-! ## Productions by right-hand side -/

def headsOf (rules : List Production) (rhs : List String) : List String :=
  ((rules.filter fun rule => rule.rhs = rhs).map Production.lhs).eraseDups

def terminalLabels (rules : List Production) : List String :=
  ((rules.filterMap (Production.unary? (headLabels rules))).map Prod.fst).eraseDups

def pairLabels (rules : List Production) : List (String × String) :=
  ((rules.filterMap (Production.binary? (headLabels rules))).map Prod.fst).eraseDups

def rulesOfLength (rules : List Production) (length : Nat) : List Production :=
  (rules.filter fun rule =>
    rule.violation? (headLabels rules) = none ∧ rule.rhs.length = length).eraseDups

section Productions

variable {rules : List Production} {nonterminals : List String}

theorem mem_terminalLabels_iff {token : String} :
    token ∈ terminalLabels rules ↔ ∃ lhs, Normal rules ⟨lhs, [token]⟩ := by
  simp only [terminalLabels, List.mem_eraseDups, List.mem_map, Prod.exists, mem_unary_iff]
  simp

theorem mem_pairLabels_iff {left right : String} :
    (left, right) ∈ pairLabels rules ↔ ∃ lhs, Normal rules ⟨lhs, [left, right]⟩ := by
  simp only [pairLabels, List.mem_eraseDups, List.mem_map, Prod.exists, mem_binary_iff]
  simp

theorem not_mem_headLabels_of_mem_terminalLabels {token : String}
    (h : token ∈ terminalLabels rules) : token ∉ headLabels rules := by
  rcases mem_terminalLabels_iff.mp h with ⟨lhs, hrule⟩
  cases hrule with
  | terminal _ htoken => exact htoken

theorem eraseDups_vocabulary (rules : List Production) :
    (vocabulary (headLabels rules) rules).eraseDups =
      (headLabels rules).eraseDups ++ terminalLabels rules := by
  rw [vocabulary, List.eraseDups_append, terminalLabels]
  congr 2
  -- No terminal is a nonterminal, so none is left out for having appeared before.
  rw [List.removeAll, List.filter_eq_self]
  intro token htoken
  have hnew : token ∉ headLabels rules :=
    not_mem_headLabels_of_mem_terminalLabels (List.mem_eraseDups.mpr htoken)
  simpa using hnew

theorem membersIn_filterMap_rules {κ : Type} [DecidableEq κ]
    {view : Production → Option (κ × String)} {key : κ} (rhs : List String)
    (hview : ∀ rule head, view rule = some (key, head) ↔ rule.rhs = rhs ∧ head = rule.lhs)
    (rules : List Production) :
    membersIn (rules.filterMap view) key =
      (rules.filter fun rule => rule.rhs = rhs).map Production.lhs := by
  induction rules with
  | nil => rfl
  | cons rule rules ih =>
      by_cases hrhs : rule.rhs = rhs
      · have hsome := (hview rule rule.lhs).mpr ⟨hrhs, rfl⟩
        rw [List.filterMap_cons, hsome, List.filter_cons_of_pos (by simp [hrhs]), List.map_cons,
          ← ih]
        simp [membersIn]
      · rw [List.filter_cons_of_neg (by simp [hrhs]), ← ih, List.filterMap_cons]
        cases hrule : view rule with
        | none => rfl
        | some pair =>
            have hkey : pair.1 ≠ key := by
              rintro rfl
              exact hrhs ((hview rule pair.2).mp hrule).1
            simp [membersIn, hkey]

theorem membersIn_unary {token : String} (htoken : token ∉ nonterminals) :
    (membersIn (rules.filterMap (Production.unary? nonterminals)) token).eraseDups =
      headsOf rules [token] := by
  rw [membersIn_filterMap_rules [token], headsOf]
  rintro ⟨lhs, rhs⟩ head
  rw [Production.unary?_eq_some_iff]
  constructor
  · rintro ⟨hrule, -⟩
    cases hrule
    exact ⟨rfl, rfl⟩
  · rintro ⟨hrhs, hhead⟩
    exact ⟨by rw [hhead, ← hrhs], htoken⟩

theorem membersIn_binary {left right : String} (hleft : left ∈ nonterminals)
    (hright : right ∈ nonterminals) :
    (membersIn (rules.filterMap (Production.binary? nonterminals)) (left, right)).eraseDups =
      headsOf rules [left, right] := by
  rw [membersIn_filterMap_rules [left, right], headsOf]
  rintro ⟨lhs, rhs⟩ head
  rw [Production.binary?_eq_some_iff]
  constructor
  · rintro ⟨hrule, -⟩
    cases hrule
    exact ⟨rfl, rfl⟩
  · rintro ⟨hrhs, hhead⟩
    exact ⟨by rw [hhead, ← hrhs], hleft, hright⟩

theorem Production.accepted_iff_unary? {rule : Production} :
    rule.violation? nonterminals = none ∧ rule.rhs.length = 1 ↔
      ∃ token, rule.unary? nonterminals = some (token, rule.lhs) := by
  rcases rule with ⟨lhs, _ | ⟨first, _ | ⟨second, rest⟩⟩⟩ <;>
    simp [Production.violation?, Production.unary?]

theorem Production.accepted_iff_binary? {rule : Production} :
    rule.violation? nonterminals = none ∧ rule.rhs.length = 2 ↔
      ∃ pair, rule.binary? nonterminals = some (pair, rule.lhs) := by
  rcases rule with ⟨lhs, _ | ⟨first, _ | ⟨second, _ | ⟨third, rest⟩⟩⟩⟩ <;>
    simp [Production.violation?, Production.binary?]

theorem length_eraseDups_filterMap_rules {κ : Type} [BEq κ] [LawfulBEq κ]
    {view : Production → Option κ} {accepted : Production → Prop} [DecidablePred accepted]
    (haccepted : ∀ rule, accepted rule ↔ ∃ value, view rule = some value)
    (hview : Unique fun value rule => view rule = some value) (rules : List Production) :
    (rules.filterMap view).eraseDups.length =
      (rules.filter fun rule => accepted rule).eraseDups.length := by
  have hfilter : rules.filterMap view =
      (rules.filter fun rule => accepted rule).filterMap view := by
    rw [List.filterMap_filter]
    apply List.filterMap_congr
    intro rule _
    by_cases hrule : accepted rule
    · simp [hrule]
    · have hnone : view rule = none := by
        rw [Option.eq_none_iff_forall_ne_some]
        intro value hvalue
        exact hrule ((haccepted rule).mpr ⟨value, hvalue⟩)
      simp [hrule, hnone]
  rw [hfilter]
  apply List.Forall₂.length_eq
  apply forall₂_eraseDups hview
  apply forall₂_filterMap
  intro rule hrule
  exact (haccepted rule).mp (by simpa using (List.mem_filter.mp hrule).2)

theorem length_eraseDups_unary (rules : List Production) :
    (rules.filterMap (Production.unary? (headLabels rules))).eraseDups.length =
      (rulesOfLength rules 1).length := by
  apply length_eraseDups_filterMap_rules
  · intro rule
    rw [Production.accepted_iff_unary?]
    constructor
    · rintro ⟨token, hrule⟩
      exact ⟨_, hrule⟩
    · rintro ⟨⟨token, lhs⟩, hrule⟩
      have hlhs := (Production.unary?_eq_some_iff.mp hrule).1
      exact ⟨token, by rw [hrule, hlhs]⟩
  · rintro ⟨token, lhs⟩ rule ⟨token', lhs'⟩ rule' hrule hrule'
    rw [(Production.unary?_eq_some_iff.mp hrule).1, (Production.unary?_eq_some_iff.mp hrule').1]
    simp [and_comm]

theorem length_eraseDups_binary (rules : List Production) :
    (rules.filterMap (Production.binary? (headLabels rules))).eraseDups.length =
      (rulesOfLength rules 2).length := by
  apply length_eraseDups_filterMap_rules
  · intro rule
    rw [Production.accepted_iff_binary?]
    constructor
    · rintro ⟨pair, hrule⟩
      exact ⟨_, hrule⟩
    · rintro ⟨⟨⟨left, right⟩, lhs⟩, hrule⟩
      have hlhs := (Production.binary?_eq_some_iff.mp hrule).1
      exact ⟨(left, right), by rw [hrule, hlhs]⟩
  · rintro ⟨⟨left, right⟩, lhs⟩ rule ⟨⟨left', right'⟩, lhs'⟩ rule' hrule hrule'
    rw [(Production.binary?_eq_some_iff.mp hrule).1,
      (Production.binary?_eq_some_iff.mp hrule').1]
    simp [and_comm]

end Productions

/-! ## Tables by label -/

namespace Grammar

def Names (grammar : Grammar) (symbol : Symbol) (label : String) : Prop :=
  grammar.symbol? label = some symbol

section Tables

variable {grammar : Grammar} {rules : List Production}
  (h : grammar.Indexes (headLabels rules) rules)

include h

theorem Indexes.unique_names : Unique grammar.Names := by
  intro symbol label symbol' label' hsymbol hsymbol'
  constructor
  · rintro rfl
    exact h.symbols.label_inj hsymbol hsymbol'
  · rintro rfl
    exact Option.some.inj (hsymbol.symm.trans hsymbol')

theorem Indexes.labels_eq :
    grammar.symbols.labels.toList = (headLabels rules).eraseDups ++ terminalLabels rules := by
  rw [h.symbols.labels_eq, eraseDups_vocabulary]

theorem Indexes.names_iff (symbol : Symbol) (label : String) :
    grammar.symbol? label = some symbol ↔
      ((headLabels rules).eraseDups ++ terminalLabels rules)[symbol.id]? = some label := by
  rw [← h.labels_eq, Array.getElem?_toList]
  exact h.symbols.symbol?_eq_some_iff label symbol

theorem Indexes.isNonterminal_iff_id_lt (symbol : Symbol) :
    grammar.isNonterminal symbol = true ↔ symbol.id < (headLabels rules).eraseDups.length := by
  rw [h.isNonterminal_iff]
  simp only [h.names_iff]
  constructor
  · rintro ⟨label, hlabel, hsymbol⟩
    by_contra hge
    rw [List.getElem?_append_right (by omega)] at hsymbol
    exact not_mem_headLabels_of_mem_terminalLabels (List.mem_of_getElem? hsymbol) hlabel
  · intro hlt
    refine ⟨(headLabels rules).eraseDups[symbol.id], ?_, ?_⟩
    · exact List.mem_eraseDups.mp (List.getElem_mem hlt)
    · rw [List.getElem?_append_left hlt, List.getElem?_eq_getElem hlt]

theorem Indexes.map_id_nonterminals :
    grammar.nonterminals.members.map Symbol.id =
      List.range (headLabels rules).eraseDups.length := by
  apply SymbolSet.map_id_members _ h.isNonterminal_iff_id_lt
  have hsize := h.symbols.size_lt
  rw [h.symbols.size_eq, eraseDups_vocabulary, List.length_append] at hsize
  omega

theorem Indexes.forall₂_unary :
    List.Forall₂ (fun pair labels => grammar.Names pair.1 labels.1 ∧ grammar.Names pair.2 labels.2)
      ((rules.filterMap (Production.unary? (headLabels rules))).filterMap grammar.symbols.pair?)
      (rules.filterMap (Production.unary? (headLabels rules))) := by
  refine List.Forall₂.imp ?_ (forall₂_filterMap ?_)
  · intro pair labels hpair
    exact SymbolTable.pair?_eq_some_iff.mp hpair
  · intro labels hlabels
    obtain ⟨hfirst, hsecond⟩ := h.unary_labels labels hlabels
    obtain ⟨first, hfirst⟩ := h.symbols.exists_symbol.mpr hfirst
    obtain ⟨second, hsecond⟩ := h.symbols.exists_symbol.mpr hsecond
    exact ⟨(first, second), SymbolTable.pair?_eq_some_iff.mpr ⟨hfirst, hsecond⟩⟩

theorem Indexes.forall₂_binary :
    List.Forall₂ (fun triple labels =>
        (grammar.Names triple.1.1 labels.1.1 ∧ grammar.Names triple.1.2 labels.1.2) ∧
          grammar.Names triple.2 labels.2)
      ((rules.filterMap (Production.binary? (headLabels rules))).filterMap
        grammar.symbols.triple?)
      (rules.filterMap (Production.binary? (headLabels rules))) := by
  refine List.Forall₂.imp ?_ (forall₂_filterMap ?_)
  · intro triple labels htriple
    obtain ⟨hfirst, hsecond, hthird⟩ := SymbolTable.triple?_eq_some_iff.mp htriple
    exact ⟨⟨hfirst, hsecond⟩, hthird⟩
  · intro labels hlabels
    obtain ⟨hfirst, hsecond, hthird⟩ := h.binary_labels labels hlabels
    obtain ⟨first, hfirst⟩ := h.symbols.exists_symbol.mpr hfirst
    obtain ⟨second, hsecond⟩ := h.symbols.exists_symbol.mpr hsecond
    obtain ⟨third, hthird⟩ := h.symbols.exists_symbol.mpr hthird
    exact ⟨((first, second), third),
      SymbolTable.triple?_eq_some_iff.mpr ⟨hfirst, hsecond, hthird⟩⟩

theorem Indexes.forall₂_unaryHeads {token : String} (htoken : token ∈ terminalLabels rules)
    {terminal : Symbol} (hterminal : grammar.symbol? token = some terminal) :
    List.Forall₂ grammar.Names (grammar.unaryHeads terminal) (headsOf rules [token]) := by
  rw [unaryHeads, h.unary.members_eq,
    ← membersIn_unary (not_mem_headLabels_of_mem_terminalLabels htoken)]
  exact forall₂_eraseDups h.unique_names
    (forall₂_membersIn h.unique_names h.forall₂_unary hterminal)

theorem Indexes.unaryHeads_eq_nil {symbol : Symbol}
    (hsymbol : ∀ token ∈ terminalLabels rules, grammar.symbol? token ≠ some symbol) :
    grammar.unaryHeads symbol = [] := by
  rw [List.eq_nil_iff_forall_not_mem]
  intro head hhead
  rw [unaryHeads, h.unary.mem_members, List.mem_filterMap] at hhead
  rcases hhead with ⟨⟨token, lhs⟩, hpair, hsymbols⟩
  apply hsymbol token _ (SymbolTable.pair?_eq_some_iff.mp hsymbols).1
  rw [terminalLabels, List.mem_eraseDups]
  exact List.mem_map_of_mem hpair

theorem Indexes.forall₂_unaryGroups :
    List.Forall₂ (fun group token =>
        grammar.Names group.1 token ∧ List.Forall₂ grammar.Names group.2 (headsOf rules [token]))
      grammar.unary.groups (terminalLabels rules) := by
  apply forall₂_of_mem (forall₂_groups h.unique_names h.unique_names h.unary h.forall₂_unary)
  rintro group _ token htoken ⟨hname, hheads⟩
  rw [membersIn_unary (not_mem_headLabels_of_mem_terminalLabels htoken)] at hheads
  exact ⟨hname, hheads⟩

theorem Indexes.forall₂_binaryGroups :
    List.Forall₂ (fun group labels =>
        (grammar.Names group.1.1 labels.1 ∧ grammar.Names group.1.2 labels.2) ∧
          List.Forall₂ grammar.Names group.2 (headsOf rules [labels.1, labels.2]))
      grammar.binary.groups (pairLabels rules) := by
  apply forall₂_of_mem (forall₂_groups (h.unique_names.prod h.unique_names) h.unique_names
    h.binary.view h.forall₂_binary)
  rintro group _ ⟨left, right⟩ hlabels ⟨hnames, hheads⟩
  rcases mem_pairLabels_iff.mp hlabels with ⟨lhs, hrule⟩
  cases hrule with
  | pair _ hleft hright =>
      rw [membersIn_binary hleft hright] at hheads
      exact ⟨hnames, hheads⟩

theorem Indexes.binaryHeads_of_mem {group : (Symbol × Symbol) × List Symbol}
    (hgroup : group ∈ grammar.binary.groups) :
    grammar.binaryHeads group.1.1 group.1.2 = .ok group.2 := by
  rw [binaryHeads, h.binary.members_eq, h.binary.view.group_eq_members hgroup]

theorem Indexes.binaryHeads_of_not_mem {left right : Symbol}
    (hpair : (left, right) ∉ grammar.binary.groups.map Prod.fst) :
    grammar.binaryHeads left right = .ok [] := by
  rw [binaryHeads, h.binary.members_eq, Grouping.members_eq_nil_of_not_mem _ hpair]

theorem Indexes.numUnaryRules_eq :
    grammar.numUnaryRules = (rulesOfLength rules 1).length := by
  rw [h.unary_count, h.unary.size_eq, ← length_eraseDups_unary]
  apply List.Forall₂.length_eq
  exact forall₂_eraseDups (h.unique_names.prod h.unique_names) h.forall₂_unary

theorem Indexes.numBinaryRules_eq :
    grammar.numBinaryRules = (rulesOfLength rules 2).length := by
  rw [h.binary_count, h.binary.view.size_eq, ← length_eraseDups_binary]
  convert (forall₂_eraseDups ((h.unique_names.prod h.unique_names).prod h.unique_names)
    h.forall₂_binary).length_eq

end Tables

end Grammar

/-! ## Compilation -/

/-- The compilation is what can be read off the productions. -/
structure Compilation.Exact (compilation : Compilation) (rules : List Production) : Prop where
  labels_eq : compilation.grammar.symbols.labels.toList =
    (headLabels rules).eraseDups ++ terminalLabels rules
  symbol?_eq_some_iff : ∀ label symbol, compilation.grammar.symbol? label = some symbol ↔
    ((headLabels rules).eraseDups ++ terminalLabels rules)[symbol.id]? = some label
  nonterminals_eq : compilation.grammar.nonterminals.members.map Symbol.id =
    List.range (headLabels rules).eraseDups.length
  unaryHeads_of_terminal : ∀ token ∈ terminalLabels rules, ∀ terminal,
    compilation.grammar.symbol? token = some terminal →
      (compilation.grammar.unaryHeads terminal).Nodup ∧
      List.Forall₂ compilation.grammar.Names (compilation.grammar.unaryHeads terminal)
        (headsOf rules [token])
  unaryHeads_of_other : ∀ symbol,
    (∀ token ∈ terminalLabels rules, compilation.grammar.symbol? token ≠ some symbol) →
      compilation.grammar.unaryHeads symbol = []
  binaryGroups : List.Forall₂ (fun group labels =>
      (compilation.grammar.Names group.1.1 labels.1 ∧
        compilation.grammar.Names group.1.2 labels.2) ∧
      List.Forall₂ compilation.grammar.Names group.2 (headsOf rules [labels.1, labels.2]))
    compilation.grammar.binary.groups (pairLabels rules)
  binaryGroups_ne_nil : ∀ group ∈ compilation.grammar.binary.groups,
    group.2 ≠ [] ∧ group.2.Nodup
  places_eq_some_iff : ∀ (pair : Symbol × Symbol) (place : Nat),
    compilation.grammar.binary.places[pair]? = some place ↔
      ∃ heads, compilation.grammar.binary.entries[place]? = some (pair, heads)
  binaryHeads_of_group : ∀ group ∈ compilation.grammar.binary.groups,
    compilation.grammar.binaryHeads group.1.1 group.1.2 = .ok group.2
  binaryHeads_of_other : ∀ left right,
    (left, right) ∉ compilation.grammar.binary.groups.map Prod.fst →
      compilation.grammar.binaryHeads left right = .ok []
  numUnaryRules_eq : compilation.grammar.numUnaryRules = (rulesOfLength rules 1).length
  numBinaryRules_eq : compilation.grammar.numBinaryRules = (rulesOfLength rules 2).length
  diagnostics_eq : compilation.diagnostics = rules.filterMap fun rule =>
    (rule.violation? (headLabels rules)).map (.dropped rule)

/--
Productions, whose number is a machine word, compile as long as there are symbols for their labels,
and exactly.
-/
theorem Grammar.compile_exact (rules : List Production) (hrules : rules.length < Word.limit)
    (hlabels : (vocabulary (headLabels rules) rules).eraseDups.length < Symbol.limit) :
    ∃ compilation, compile rules = .ok compilation ∧ compilation.Exact rules := by
  obtain ⟨compilation, hcompile⟩ := exists_compile hlabels hrules
  have h := indexes_of_compile hcompile
  refine ⟨compilation, hcompile, ?_⟩
  exact {
    labels_eq := h.labels_eq
    symbol?_eq_some_iff := fun label symbol => h.names_iff symbol label
    nonterminals_eq := h.map_id_nonterminals
    unaryHeads_of_terminal := fun token htoken terminal hterminal =>
      ⟨h.unary.nodup_members terminal, h.forall₂_unaryHeads htoken hterminal⟩
    unaryHeads_of_other := fun symbol => h.unaryHeads_eq_nil
    binaryGroups := h.forall₂_binaryGroups
    binaryGroups_ne_nil := fun group hgroup => by
      refine ⟨h.binary.view.group_ne_nil hgroup, ?_⟩
      rw [h.binary.view.group_eq_members hgroup]
      exact h.binary.view.nodup_members _
    places_eq_some_iff := h.binary.coherent
    binaryHeads_of_group := fun group => h.binaryHeads_of_mem
    binaryHeads_of_other := fun left right => h.binaryHeads_of_not_mem
    numUnaryRules_eq := h.numUnaryRules_eq
    numBinaryRules_eq := h.numBinaryRules_eq
    diagnostics_eq := diagnostics_of_compile hcompile }

def mixed : List Production :=
  [⟨"S", ["A", "B"]⟩, ⟨"A", ["a"]⟩, ⟨"A", ["B"]⟩, ⟨"S", ["A", "B"]⟩, ⟨"B", ["a"]⟩,
    ⟨"B", ["A", "b"]⟩, ⟨"S", []⟩, ⟨"B", ["A", "B"]⟩]

theorem Grammar.compile_mixed :
    mixed.length < Word.limit ∧
      (vocabulary (headLabels mixed) mixed).eraseDups.length < Symbol.limit ∧
      ∃ compilation, compile mixed = .ok compilation ∧ compilation.Exact mixed ∧
        compilation.grammar.symbols.labels.toList = ["S", "A", "B", "a"] ∧
        compilation.grammar.numUnaryRules = 2 ∧ compilation.grammar.numBinaryRules = 2 ∧
        compilation.diagnostics = [.dropped ⟨"A", ["B"]⟩ .loneNonterminal,
          .dropped ⟨"B", ["A", "b"]⟩ .mixedPair, .dropped ⟨"S", []⟩ (.wrongLength 0)] := by
  have hlabels : (vocabulary (headLabels mixed) mixed).eraseDups.length < Symbol.limit := by
    decide +kernel
  have hrules : mixed.length < Word.limit := by
    decide
  obtain ⟨compilation, hcompile, hexact⟩ := compile_exact mixed hrules hlabels
  refine ⟨hrules, hlabels, compilation, hcompile, hexact, ?_, ?_, ?_, ?_⟩
  · rw [hexact.labels_eq]
    decide +kernel
  · rw [hexact.numUnaryRules_eq]
    decide +kernel
  · rw [hexact.numBinaryRules_eq]
    decide +kernel
  · rw [hexact.diagnostics_eq]
    decide +kernel

end ChartParsing
