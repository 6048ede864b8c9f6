import ChartParsing.Proofs.Chart
import ChartParsing.Proofs.Compilation

/-!
# Derivations between symbols

The tables of a compiled grammar speak of symbols, and a chart of symbols over
spans.  A constituent is yielded if its symbol derives the tokens of its span
by the tables; this is the same as a derivation between labels.
-/

namespace ChartParsing

namespace Grammar

def Expands (grammar : Grammar) (left right head : Symbol) : Prop :=
  ∃ heads, grammar.binaryHeads left right = .ok heads ∧ head ∈ heads

section Tables

variable {grammar : Grammar} {rules : List Production} {head left right terminal : Symbol}

theorem Indexes.mem_unaryHeads_iff (h : grammar.Indexes (headLabels rules) rules) :
    head ∈ grammar.unaryHeads terminal ↔
      ∃ lhs token, Normal rules ⟨lhs, [token]⟩ ∧ grammar.symbol? lhs = some head ∧
        grammar.symbol? token = some terminal := by
  rw [unaryHeads, h.unary.mem_members, List.mem_filterMap]
  constructor
  · rintro ⟨⟨token, lhs⟩, hpair, hsymbols⟩
    obtain ⟨htoken, hlhs⟩ := SymbolTable.pair?_eq_some_iff.mp hsymbols
    exact ⟨lhs, token, mem_unary_iff.mp hpair, hlhs, htoken⟩
  · rintro ⟨lhs, token, hrule, hlhs, htoken⟩
    exact ⟨(token, lhs), mem_unary_iff.mpr hrule,
      SymbolTable.pair?_eq_some_iff.mpr ⟨htoken, hlhs⟩⟩

theorem Indexes.expands_iff (h : grammar.Indexes (headLabels rules) rules) :
    grammar.Expands left right head ↔
      ∃ lhs first second, Normal rules ⟨lhs, [first, second]⟩ ∧
        grammar.symbol? lhs = some head ∧ grammar.symbol? first = some left ∧
        grammar.symbol? second = some right := by
  simp only [Expands, binaryHeads, h.binary.members_eq, Except.ok.injEq, exists_eq_left']
  rw [h.binary.view.mem_members, List.mem_filterMap]
  constructor
  · rintro ⟨⟨⟨first, second⟩, lhs⟩, htriple, hsymbols⟩
    obtain ⟨hfirst, hsecond, hlhs⟩ := SymbolTable.triple?_eq_some_iff.mp hsymbols
    exact ⟨lhs, first, second, mem_binary_iff.mp htriple, hlhs, hfirst, hsecond⟩
  · rintro ⟨lhs, first, second, hrule, hlhs, hfirst, hsecond⟩
    exact ⟨((first, second), lhs), mem_binary_iff.mpr hrule,
      SymbolTable.triple?_eq_some_iff.mpr ⟨hfirst, hsecond, hlhs⟩⟩

theorem Indexes.expands_iff_mem_groups (h : grammar.Indexes (headLabels rules) rules) :
    grammar.Expands left right head ↔
      ∃ heads, ((left, right), heads) ∈ grammar.binary.groups ∧ head ∈ heads := by
  simp only [Expands, binaryHeads, h.binary.members_eq, Except.ok.injEq, exists_eq_left']
  constructor
  · intro hhead
    exact ⟨_, h.binary.view.mem_groups hhead, hhead⟩
  · rintro ⟨heads, hgroup, hhead⟩
    exact h.binary.view.group_eq_members hgroup ▸ hhead

theorem Indexes.exists_terminal (h : grammar.Indexes (headLabels rules) rules)
    {lhs token : String} (hrule : Normal rules ⟨lhs, [token]⟩) :
    ∃ terminal, grammar.symbol? token = some terminal :=
  h.symbols.exists_symbol.mpr
    (List.mem_append_right _ (List.mem_map_of_mem (mem_unary_iff.mpr hrule)))

theorem Indexes.unaryHeads_id_lt (h : grammar.Indexes (headLabels rules) rules)
    (hhead : head ∈ grammar.unaryHeads terminal) : head.id < grammar.numSymbols := by
  obtain ⟨lhs, token, -, hlhs, -⟩ := h.mem_unaryHeads_iff.mp hhead
  exact h.symbols.id_lt hlhs

theorem Indexes.expands_id_lt (h : grammar.Indexes (headLabels rules) rules)
    (hhead : grammar.Expands left right head) : head.id < grammar.numSymbols := by
  obtain ⟨lhs, first, second, -, hlhs, -, -⟩ := h.expands_iff.mp hhead
  exact h.symbols.id_lt hlhs

end Tables

/-- The symbol derives the tokens of the span, by the tables of the grammar. -/
inductive Yields (grammar : Grammar) (tokens : List String) : Constituent → Prop
  | token {head terminal : Symbol} {token : String} {position : Nat}
      (htoken : tokens[position]? = some token)
      (hterminal : grammar.symbol? token = some terminal)
      (hhead : head ∈ grammar.unaryHeads terminal) :
      Yields grammar tokens ⟨head, ⟨position, position + 1⟩⟩
  | pair {head left right : Symbol} {start split stop : Nat}
      (hhead : grammar.Expands left right head)
      (hleft : Yields grammar tokens ⟨left, ⟨start, split⟩⟩)
      (hright : Yields grammar tokens ⟨right, ⟨split, stop⟩⟩) :
      Yields grammar tokens ⟨head, ⟨start, stop⟩⟩

section Yields

variable {grammar : Grammar} {rules : List Production} {tokens : List String}
  {constituent : Constituent}

theorem Yields.within (h : grammar.Yields tokens constituent) :
    constituent.span.Within tokens.length := by
  induction h with
  | token htoken _ _ =>
      have hlt := (List.getElem?_eq_some_iff.mp htoken).1
      exact ⟨Nat.lt_succ_self _, hlt⟩
  | pair _ _ _ ihLeft ihRight =>
      exact ⟨Nat.lt_trans ihLeft.start_lt ihRight.start_lt, ihRight.stop_le⟩

theorem Yields.id_lt (hgrammar : grammar.Indexes (headLabels rules) rules)
    (h : grammar.Yields tokens constituent) : constituent.symbol.id < grammar.numSymbols := by
  cases h with
  | token _ _ hhead => exact hgrammar.unaryHeads_id_lt hhead
  | pair hhead _ _ => exact hgrammar.expands_id_lt hhead

/-! ## Between labels -/

theorem extract_append_extract (tokens : List String) {start split stop : Nat}
    (hsplit : start ≤ split) (hstop : split ≤ stop) :
    tokens.extract start split ++ tokens.extract split stop = tokens.extract start stop := by
  simp only [List.extract_eq_take_drop]
  have hsum : stop - start = (split - start) + (stop - split) := by omega
  have hdrop : start + (split - start) = split := by omega
  rw [hsum, List.take_add, List.drop_drop, hdrop]

theorem extract_token {position : Nat} {token : String}
    (htoken : tokens[position]? = some token) :
    tokens.extract position (position + 1) = [token] := by
  rw [List.extract_eq_take_drop, Nat.add_sub_cancel_left, List.take_one, List.head?_drop, htoken]
  rfl

theorem Yields.derives (hgrammar : grammar.Indexes (headLabels rules) rules)
    (h : grammar.Yields tokens constituent) :
    ∃ label, grammar.symbol? label = some constituent.symbol ∧
      Derives rules label (tokens.extract constituent.span.start constituent.span.stop) := by
  induction h with
  | token htoken hterminal hhead =>
      obtain ⟨lhs, token, hrule, hlhs, htokenSymbol⟩ := hgrammar.mem_unaryHeads_iff.mp hhead
      cases hgrammar.symbols.label_inj htokenSymbol hterminal
      refine ⟨lhs, hlhs, ?_⟩
      rw [extract_token htoken]
      exact .token hrule
  | pair hhead hleft hright ihLeft ihRight =>
      obtain ⟨lhs, first, second, hrule, hlhs, hfirst, hsecond⟩ :=
        hgrammar.expands_iff.mp hhead
      rcases ihLeft with ⟨leftLabel, hleftLabel, hleftDerives⟩
      rcases ihRight with ⟨rightLabel, hrightLabel, hrightDerives⟩
      cases hgrammar.symbols.label_inj hfirst hleftLabel
      cases hgrammar.symbols.label_inj hsecond hrightLabel
      refine ⟨lhs, hlhs, ?_⟩
      rw [← extract_append_extract tokens (Nat.le_of_lt hleft.within.start_lt)
        (Nat.le_of_lt hright.within.start_lt)]
      exact .pair hrule hleftDerives hrightDerives

theorem yields_of_derives (hgrammar : grammar.Indexes (headLabels rules) rules) {label : String}
    {word : List String} (h : Derives rules label word) {start : Nat}
    (hword : word <+: tokens.drop start) :
    ∃ symbol, grammar.symbol? label = some symbol ∧
      grammar.Yields tokens ⟨symbol, ⟨start, start + word.length⟩⟩ := by
  induction h generalizing start with
  | @token lhs token hrule =>
      obtain ⟨head, hhead⟩ := hgrammar.exists_symbol hrule.lhs_mem
      obtain ⟨terminal, hterminal⟩ := hgrammar.exists_terminal hrule
      have htoken : tokens[start]? = some token := by
        rcases hword with ⟨rest, hrest⟩
        rw [← List.head?_drop, ← hrest]
        rfl
      exact ⟨head, hhead, .token htoken hterminal
        (hgrammar.mem_unaryHeads_iff.mpr ⟨lhs, token, hrule, hhead, hterminal⟩)⟩
  | @pair lhs left right first second hrule _ _ ihLeft ihRight =>
      obtain ⟨head, hhead⟩ := hgrammar.exists_symbol hrule.lhs_mem
      have hfirst : first <+: tokens.drop start := (List.prefix_append _ _).trans hword
      have hsecond : second <+: tokens.drop (start + first.length) := by
        rcases hword with ⟨rest, hrest⟩
        rw [← List.drop_drop, ← hrest, List.append_assoc, List.drop_left]
        exact List.prefix_append _ _
      obtain ⟨leftSymbol, hleft, hleftYields⟩ := ihLeft hfirst
      obtain ⟨rightSymbol, hright, hrightYields⟩ := ihRight hsecond
      refine ⟨head, hhead, .pair (hgrammar.expands_iff.mpr
        ⟨lhs, left, right, hrule, hhead, hleft, hright⟩) hleftYields ?_⟩
      rw [List.length_append, ← Nat.add_assoc]
      exact hrightYields

theorem exists_yields_iff_derives (hgrammar : grammar.Indexes (headLabels rules) rules)
    {span : Span} (hspan : span.Within tokens.length) (label : String) :
    (∃ symbol, grammar.symbol? label = some symbol ∧ grammar.Yields tokens ⟨symbol, span⟩) ↔
      Derives rules label (tokens.extract span.start span.stop) := by
  constructor
  · rintro ⟨symbol, hsymbol, hyields⟩
    obtain ⟨other, hother, hderives⟩ := hyields.derives hgrammar
    cases hgrammar.symbols.label_inj hother hsymbol
    exact hderives
  · intro hderives
    have hword : tokens.extract span.start span.stop <+: tokens.drop span.start := by
      rw [List.extract_eq_take_drop]
      exact List.take_prefix _ _
    have hstop : span.start + (tokens.extract span.start span.stop).length = span.stop := by
      rcases hspan with ⟨hstart, hstop⟩
      rw [List.extract_eq_take_drop, List.length_take, List.length_drop]
      omega
    have hyields := yields_of_derives hgrammar hderives hword
    rw [hstop] at hyields
    exact hyields

end Yields

end Grammar

end ChartParsing
