import ChartParsing.Filling
import ChartParsing.Proofs.Derivation
import ChartParsing.Proofs.Grouping
import Mathlib.Data.List.Nodup

/-!
# The log of a filling

Filling a chart records witnesses one after another.  Here this sequence is
written down without a chart: the searches ask a given predicate which
constituents are known.  The log has everything about the evidence in it, for
the witnesses of a constituent are those that the log has for it.
-/

namespace ChartParsing

open Grouping

abbrev Log := List (Constituent × Witness)

def Witness.position? : Witness → Option Nat
  | .leaf _ => none
  | .split position _ _ => some position

def Witness.pair? : Witness → Option (Symbol × Symbol)
  | .leaf _ => none
  | .split _ left right => some (left, right)

def Findings.log (findings : Findings) : Log :=
  findings.entries.toList.map fun entry => (⟨entry.1, findings.span⟩, entry.2)

namespace Grammar

section Definitions

variable (grammar : Grammar) (known : Constituent → Bool)

def tokenLog (token : String) (position : Nat) : Log :=
  match grammar.analyse? token with
  | some (terminal, heads) =>
      heads.map fun head => (⟨head, ⟨position, position + 1⟩⟩, .leaf terminal)
  | none => []

def tokensLog (tokens : List String) : Log :=
  tokens.zipIdx.flatMap fun item => grammar.tokenLog item.1 item.2

def joins (span : Span) (split : Nat) (pair : Symbol × Symbol) : Bool :=
  known ⟨pair.1, ⟨span.start, split⟩⟩ && known ⟨pair.2, ⟨split, span.stop⟩⟩

def pairEntries (span : Span) (split : Nat) (group : (Symbol × Symbol) × List Symbol) :
    List (Symbol × Witness) :=
  if joins known span split group.1 then
    group.2.map fun head => (head, .split split group.1.1 group.1.2)
  else []

def splitEntries (span : Span) (split : Nat) : List (Symbol × Witness) :=
  grammar.binary.groups.flatMap (pairEntries known span split)

def splitPositions (span : Span) : List Nat :=
  List.range' (span.start + 1) (span.stop - (span.start + 1))

/-- What there is to find for the cell of a span. -/
def findings (span : Span) : Findings where
  span := span
  entries := ((splitPositions span).flatMap (grammar.splitEntries known span)).toArray
  combinations := (splitPositions span).length * grammar.binary.groups.length

def layer (numTokens width : Nat) : List Findings :=
  (List.range (numTokens + 1 - width)).map fun start =>
    grammar.findings known ⟨start, start + width⟩

def layerLog (numTokens width : Nat) : Log :=
  (grammar.layer known numTokens width).flatMap Findings.log

/-- The log after the tokens and the layers of these widths. -/
def log (tokens : List String) (widths : List Nat) : Log :=
  grammar.tokensLog tokens ++ widths.flatMap (grammar.layerLog known tokens.length)

def leafWitnesses (tokens : List String) (constituent : Constituent) : List Witness :=
  match tokens[constituent.span.start]?.bind grammar.symbol? with
  | some terminal =>
      if constituent.span.stop = constituent.span.start + 1 ∧
        constituent.symbol ∈ grammar.unaryHeads terminal then [.leaf terminal] else []
  | none => []

def splitWitnesses (constituent : Constituent) : List Witness :=
  (splitPositions constituent.span).flatMap fun split =>
    grammar.binary.groups.flatMap fun group =>
      if joins known constituent.span split group.1 ∧ constituent.symbol ∈ group.2 then
        [.split split group.1.1 group.1.2]
      else []

def witnesses (tokens : List String) (constituent : Constituent) : List Witness :=
  grammar.leafWitnesses tokens constituent ++ grammar.splitWitnesses known constituent

end Definitions

theorem mem_splitPositions {span : Span} {split : Nat} :
    split ∈ splitPositions span ↔ span.start < split ∧ split < span.stop := by
  rw [splitPositions, List.mem_range'_1]
  omega

theorem length_splitPositions (start width : Nat) :
    (splitPositions ⟨start, start + width⟩).length = width - 1 := by
  simp only [splitPositions, List.length_range']
  omega

end Grammar

/-! ## The witnesses of one constituent -/

section Selection

variable {ι κ α : Type} [DecidableEq κ]

theorem membersIn_append (first second : List (κ × α)) (key : κ) :
    membersIn (first ++ second) key = membersIn first key ++ membersIn second key := by
  simp [membersIn]

theorem membersIn_flatMap (items : List ι) (f : ι → List (κ × α)) (key : κ) :
    membersIn (items.flatMap f) key = items.flatMap fun item => membersIn (f item) key := by
  simp [membersIn, List.filter_flatMap, List.map_flatMap]

theorem membersIn_eq_nil {pairs : List (κ × α)} {key : κ}
    (h : ∀ pair ∈ pairs, pair.1 ≠ key) : membersIn pairs key = [] := by
  simp only [membersIn, List.map_eq_nil_iff, List.filter_eq_nil_iff, decide_eq_true_eq]
  exact h

theorem membersIn_map_of_injective [DecidableEq ι] {f : ι → κ} (hf : Function.Injective f)
    {items : List ι} (hitems : items.Nodup) (member : α) (item : ι) :
    membersIn (items.map fun item => (f item, member)) (f item) =
      if item ∈ items then [member] else [] := by
  induction items with
  | nil => rfl
  | cons first rest ih =>
      obtain ⟨hfirst, hrest⟩ := List.nodup_cons.mp hitems
      have hcons : membersIn ((first :: rest).map fun item => (f item, member)) (f item) =
          (if first = item then [member] else []) ++
            membersIn (rest.map fun item => (f item, member)) (f item) := by
        by_cases heq : first = item
        · simp [membersIn, heq]
        · simp [membersIn, heq, hf.eq_iff]
      rw [hcons, ih hrest]
      by_cases heq : first = item
      · subst heq
        simp [hfirst]
      · simp [heq, Ne.symm heq]

theorem flatMap_eq_of_unique {items : List ι} {f : ι → List α} {item : ι}
    (hnodup : items.Nodup) (hitem : item ∈ items)
    (h : ∀ other ∈ items, other ≠ item → f other = []) : items.flatMap f = f item := by
  obtain ⟨before, after, rfl⟩ := List.append_of_mem hitem
  have hdistinct : ∀ other ∈ before ++ after, other ≠ item := by
    rintro other hother rfl
    have := (List.nodup_cons.mp (List.nodup_middle.mp hnodup)).1
    exact this hother
  have hbefore : before.flatMap f = [] := by
    rw [List.flatMap_eq_nil_iff]
    intro other hother
    exact h other (by simp [hother]) (hdistinct other (by simp [hother]))
  have hafter : after.flatMap f = [] := by
    rw [List.flatMap_eq_nil_iff]
    intro other hother
    exact h other (by simp [hother]) (hdistinct other (by simp [hother]))
  rw [List.flatMap_append, List.flatMap_cons, hbefore, hafter, List.nil_append, List.append_nil]

theorem nodup_flatMap_of_tag {β γ : Type} {items : List α} {f : α → List β} (key : α → γ)
    (tag : β → γ) (hkeys : (items.map key).Nodup) (hparts : ∀ item ∈ items, (f item).Nodup)
    (htag : ∀ item ∈ items, ∀ value ∈ f item, tag value = key item) :
    (items.flatMap f).Nodup := by
  induction items with
  | nil => simp
  | cons item items ih =>
      rw [List.map_cons, List.nodup_cons] at hkeys
      rw [List.flatMap_cons, List.nodup_append']
      refine ⟨hparts item (by simp), ?_, ?_⟩
      · apply ih hkeys.2
        · intro other hother
          exact hparts other (by simp [hother])
        · intro other hother
          exact htag other (by simp [hother])
      · intro value hvalue hrest
        obtain ⟨other, hother, hvalue'⟩ := List.mem_flatMap.mp hrest
        apply hkeys.1
        rw [← htag item (by simp) value hvalue, htag other (by simp [hother]) value hvalue']
        exact List.mem_map_of_mem hother

end Selection

namespace Grammar

section Witnesses

variable {grammar : Grammar} {rules : List Production} {tokens : List String}
  {known : Constituent → Bool} {constituent : Constituent}

theorem tokenLog_eq (grammar : Grammar) (token : String) (position : Nat) :
    grammar.tokenLog token position =
      match grammar.symbol? token with
      | some terminal => (grammar.unaryHeads terminal).map fun head =>
          (⟨head, ⟨position, position + 1⟩⟩, .leaf terminal)
      | none => [] := by
  unfold tokenLog analyse?
  cases grammar.symbol? token with
  | none => rfl
  | some terminal => cases hheads : grammar.unaryHeads terminal <;> simp [hheads]

theorem span_of_mem_tokenLog {token : String} {position : Nat} {record : Constituent × Witness}
    (h : record ∈ grammar.tokenLog token position) :
    record.1.span = ⟨position, position + 1⟩ := by
  unfold tokenLog at h
  split at h
  · obtain ⟨head, -, rfl⟩ := List.mem_map.mp h
    rfl
  · simp at h

theorem span_of_mem_findings {findings : Findings} {record : Constituent × Witness}
    (h : record ∈ findings.log) : record.1.span = findings.span := by
  obtain ⟨entry, -, rfl⟩ := List.mem_map.mp h
  rfl

theorem over_injective (span : Span) :
    Function.Injective fun symbol : Symbol => (⟨symbol, span⟩ : Constituent) := by
  intro first second h
  exact congrArg Constituent.symbol h

theorem membersIn_tokenLog (hgrammar : grammar.Indexes (headLabels rules) rules)
    (token : String) (constituent : Constituent) :
    membersIn (grammar.tokenLog token constituent.span.start) constituent =
      match grammar.symbol? token with
      | some terminal =>
          if constituent.span.stop = constituent.span.start + 1 ∧
            constituent.symbol ∈ grammar.unaryHeads terminal then [.leaf terminal] else []
      | none => [] := by
  rcases constituent with ⟨symbol, ⟨start, stop⟩⟩
  by_cases hstop : stop = start + 1
  · subst hstop
    rw [tokenLog_eq]
    cases grammar.symbol? token with
    | none => rfl
    | some terminal =>
        have hselect := membersIn_map_of_injective (over_injective ⟨start, start + 1⟩)
          (hgrammar.unary.nodup_members terminal) (Witness.leaf terminal) symbol
        simpa [unaryHeads] using hselect
  · have hnil : membersIn (grammar.tokenLog token start) ⟨symbol, ⟨start, stop⟩⟩ = [] := by
      apply membersIn_eq_nil
      intro record hrecord hkey
      have hspan := span_of_mem_tokenLog hrecord
      simp [hkey, hstop] at hspan
    simp only [hnil, hstop, false_and, if_false]
    cases grammar.symbol? token <;> rfl

theorem membersIn_tokensLog (hgrammar : grammar.Indexes (headLabels rules) rules)
    (tokens : List String) (constituent : Constituent) :
    membersIn (grammar.tokensLog tokens) constituent =
      grammar.leafWitnesses tokens constituent := by
  have hother : ∀ item : String × Nat, item.2 ≠ constituent.span.start →
      membersIn (grammar.tokenLog item.1 item.2) constituent = [] := by
    intro item hitem
    apply membersIn_eq_nil
    rintro record hrecord rfl
    rw [span_of_mem_tokenLog hrecord] at hitem
    exact hitem rfl
  rw [tokensLog, membersIn_flatMap, leafWitnesses]
  cases htoken : tokens[constituent.span.start]? with
  | none =>
      simp only [Option.bind_none]
      rw [List.flatMap_eq_nil_iff]
      intro item hitem
      apply hother
      intro hposition
      rw [List.mem_zipIdx_iff_getElem?, hposition, htoken] at hitem
      cases hitem
  | some token =>
      have hnodup : tokens.zipIdx.Nodup := by
        apply List.Nodup.of_map Prod.snd
        rw [List.zipIdx_map_snd]
        exact List.nodup_range'
      have hmem : (token, constituent.span.start) ∈ tokens.zipIdx :=
        List.mk_mem_zipIdx_iff_getElem?.mpr htoken
      rw [flatMap_eq_of_unique hnodup hmem, membersIn_tokenLog hgrammar]
      · rfl
      · intro item hitem hne
        apply hother
        intro hposition
        rw [List.mem_zipIdx_iff_getElem?, hposition, htoken] at hitem
        apply hne
        ext1
        · exact (Option.some.inj hitem).symm
        · exact hposition

theorem membersIn_findings (hgrammar : grammar.Indexes (headLabels rules) rules)
    (known : Constituent → Bool) (constituent : Constituent) :
    membersIn (grammar.findings known constituent.span).log constituent =
      grammar.splitWitnesses known constituent := by
  rcases constituent with ⟨symbol, span⟩
  simp only [Findings.log, findings, splitEntries, splitWitnesses, List.map_flatMap,
    membersIn_flatMap]
  apply List.flatMap_congr
  intro split _
  apply List.flatMap_congr
  intro group hgroup
  have hheads : group.2.Nodup := by
    rw [hgrammar.binary.view.group_eq_members hgroup]
    exact hgrammar.binary.view.nodup_members _
  by_cases hjoins : joins known span split group.1
  · simp only [pairEntries, hjoins, if_true, true_and, List.map_map]
    exact membersIn_map_of_injective (over_injective span) hheads _ symbol
  · simp [pairEntries, hjoins, membersIn]

theorem membersIn_layerLog (hgrammar : grammar.Indexes (headLabels rules) rules)
    (known : Constituent → Bool) {numTokens : Nat}
    (hspan : constituent.span.Within numTokens) (width : Nat) :
    membersIn (grammar.layerLog known numTokens width) constituent =
      if constituent.span.width = width then grammar.splitWitnesses known constituent
      else [] := by
  have hother : ∀ start, (⟨start, start + width⟩ : Span) ≠ constituent.span →
      membersIn (grammar.findings known ⟨start, start + width⟩).log constituent = [] := by
    intro start hne
    apply membersIn_eq_nil
    rintro record hrecord rfl
    exact hne (span_of_mem_findings hrecord).symm
  rw [layerLog, layer, List.flatMap_map, membersIn_flatMap]
  by_cases hwidth : constituent.span.width = width
  · have hhere : (⟨constituent.span.start, constituent.span.start + width⟩ : Span) =
        constituent.span := by
      rw [← hwidth]
      exact hspan.eq_of_width
    have hmem : constituent.span.start ∈ List.range (numTokens + 1 - width) := by
      rw [List.mem_range, ← hwidth]
      exact hspan.start_lt_of_width
    rw [if_pos hwidth, flatMap_eq_of_unique List.nodup_range hmem, hhere,
      membersIn_findings hgrammar]
    intro start _ hne
    apply hother
    intro heq
    exact hne (congrArg Span.start heq)
  · rw [if_neg hwidth, List.flatMap_eq_nil_iff]
    intro start _
    apply hother
    intro heq
    apply hwidth
    rw [← heq]
    exact Nat.add_sub_cancel_left start width

theorem membersIn_log (hgrammar : grammar.Indexes (headLabels rules) rules)
    (known : Constituent → Bool) (hspan : constituent.span.Within tokens.length)
    {widths : List Nat} (hwidths : widths.Nodup) :
    membersIn (grammar.log known tokens widths) constituent =
      grammar.leafWitnesses tokens constituent ++
        if constituent.span.width ∈ widths then grammar.splitWitnesses known constituent
        else [] := by
  rw [log, membersIn_append, membersIn_tokensLog hgrammar, membersIn_flatMap]
  congr 1
  by_cases hwidth : constituent.span.width ∈ widths
  · rw [if_pos hwidth, flatMap_eq_of_unique hwidths hwidth, membersIn_layerLog hgrammar known hspan,
      if_pos rfl]
    intro other _ hne
    rw [membersIn_layerLog hgrammar known hspan, if_neg (Ne.symm hne)]
  · rw [if_neg hwidth, List.flatMap_eq_nil_iff]
    intro other hother
    rw [membersIn_layerLog hgrammar known hspan, if_neg]
    rintro rfl
    exact hwidth hother

theorem leafWitnesses_of_long (hlong : constituent.span.stop ≠ constituent.span.start + 1) :
    grammar.leafWitnesses tokens constituent = [] := by
  unfold leafWitnesses
  split <;> simp [hlong]

theorem splitWitnesses_of_token (htoken : constituent.span.stop = constituent.span.start + 1) :
    grammar.splitWitnesses known constituent = [] := by
  simp [splitWitnesses, splitPositions, htoken]

/-- Once the layers have reached a span, the log has all its witnesses. -/
theorem membersIn_log_of_width_le (hgrammar : grammar.Indexes (headLabels rules) rules)
    (known : Constituent → Bool) (hspan : constituent.span.Within tokens.length) {layers : Nat}
    (hwidth : constituent.span.width ≤ layers + 1) :
    membersIn (grammar.log known tokens (List.range' 2 layers)) constituent =
      grammar.witnesses known tokens constituent := by
  rw [membersIn_log hgrammar known hspan List.nodup_range', witnesses]
  congr 1
  by_cases htoken : constituent.span.stop = constituent.span.start + 1
  · simp [splitWitnesses_of_token htoken]
  · rw [if_pos]
    have hstart := hspan.start_lt
    rw [List.mem_range'_1]
    simp only [Span.width] at hwidth ⊢
    omega

end Witnesses

/-! ## No witness twice -/

theorem nodup_splitWitnesses {grammar : Grammar} {rules : List Production}
    (hgrammar : grammar.Indexes (headLabels rules) rules) (known : Constituent → Bool)
    (constituent : Constituent) : (grammar.splitWitnesses known constituent).Nodup := by
  apply nodup_flatMap_of_tag some Witness.position?
  · exact List.Nodup.map (fun _ _ => Option.some.inj) List.nodup_range'
  · intro split _
    apply nodup_flatMap_of_tag (fun group => some group.1) Witness.pair?
    · have hkeys := hgrammar.binary.coherent.nodup_keys.map fun _ _ => Option.some.inj
      rw [List.map_map] at hkeys
      exact hkeys
    · intro group _
      split <;> simp
    · intro group _ witness hwitness
      rw [List.mem_ite_nil_right, List.mem_singleton] at hwitness
      rw [hwitness.2, Witness.pair?]
  · intro split _ witness hwitness
    obtain ⟨group, -, hwitness⟩ := List.mem_flatMap.mp hwitness
    rw [List.mem_ite_nil_right, List.mem_singleton] at hwitness
    rw [hwitness.2, Witness.position?]

/-! ## What the witnesses say -/

/-- The witness tells how the constituent can be had from the grammar and the input. -/
inductive Backs (grammar : Grammar) (tokens : List String) : Constituent → Witness → Prop
  | leaf {head terminal : Symbol} {token : String} {position : Nat}
      (htoken : tokens[position]? = some token)
      (hterminal : grammar.symbol? token = some terminal)
      (hhead : head ∈ grammar.unaryHeads terminal) :
      Backs grammar tokens ⟨head, ⟨position, position + 1⟩⟩ (.leaf terminal)
  | split {head left right : Symbol} {start split stop : Nat}
      (hhead : grammar.Expands left right head)
      (hleft : grammar.Yields tokens ⟨left, ⟨start, split⟩⟩)
      (hright : grammar.Yields tokens ⟨right, ⟨split, stop⟩⟩) :
      Backs grammar tokens ⟨head, ⟨start, stop⟩⟩ (.split split left right)

section Backs

variable {grammar : Grammar} {rules : List Production} {tokens : List String}
  {known : Constituent → Bool} {constituent : Constituent} {witness : Witness}

theorem yields_iff_exists_backs :
    grammar.Yields tokens constituent ↔ ∃ witness, grammar.Backs tokens constituent witness := by
  constructor
  · intro h
    cases h with
    | token htoken hterminal hhead => exact ⟨_, .leaf htoken hterminal hhead⟩
    | pair hhead hleft hright => exact ⟨_, .split hhead hleft hright⟩
  · rintro ⟨witness, h⟩
    cases h with
    | leaf htoken hterminal hhead => exact .token htoken hterminal hhead
    | split hhead hleft hright => exact .pair hhead hleft hright

theorem stop_eq_of_backs_leaf {terminal : Symbol}
    (h : grammar.Backs tokens constituent (.leaf terminal)) :
    constituent.span.stop = constituent.span.start + 1 := by
  cases h
  rfl

theorem backs_split_iff {position : Nat} {left right : Symbol} :
    grammar.Backs tokens constituent (.split position left right) ↔
      grammar.Expands left right constituent.symbol ∧
        grammar.Yields tokens ⟨left, ⟨constituent.span.start, position⟩⟩ ∧
        grammar.Yields tokens ⟨right, ⟨position, constituent.span.stop⟩⟩ := by
  constructor
  · intro h
    cases h with
    | split hhead hleft hright => exact ⟨hhead, hleft, hright⟩
  · rintro ⟨hhead, hleft, hright⟩
    exact .split hhead hleft hright

theorem mem_leafWitnesses_iff :
    witness ∈ grammar.leafWitnesses tokens constituent ↔
      ∃ token terminal, tokens[constituent.span.start]? = some token ∧
        grammar.symbol? token = some terminal ∧
        constituent.span.stop = constituent.span.start + 1 ∧
        constituent.symbol ∈ grammar.unaryHeads terminal ∧ witness = .leaf terminal := by
  unfold leafWitnesses
  cases htoken : tokens[constituent.span.start]? with
  | none => simp
  | some token =>
      cases hterminal : grammar.symbol? token with
      | none => simp [hterminal]
      | some terminal => simp [hterminal, and_assoc]

theorem mem_splitWitnesses_iff (hgrammar : grammar.Indexes (headLabels rules) rules) :
    witness ∈ grammar.splitWitnesses known constituent ↔
      ∃ split left right, constituent.span.start < split ∧ split < constituent.span.stop ∧
        known ⟨left, ⟨constituent.span.start, split⟩⟩ = true ∧
        known ⟨right, ⟨split, constituent.span.stop⟩⟩ = true ∧
        grammar.Expands left right constituent.symbol ∧
        witness = .split split left right := by
  simp only [splitWitnesses, List.mem_flatMap, mem_splitPositions, joins, Bool.and_eq_true]
  constructor
  · rintro ⟨split, hsplit, ⟨⟨left, right⟩, heads⟩, hgroup, hwitness⟩
    rw [List.mem_ite_nil_right, List.mem_singleton] at hwitness
    rcases hwitness with ⟨⟨⟨hleft, hright⟩, hhead⟩, hwitness⟩
    have hexpands := hgrammar.expands_iff_mem_groups.mpr ⟨heads, hgroup, hhead⟩
    exact ⟨split, left, right, hsplit.1, hsplit.2, hleft, hright, hexpands, hwitness⟩
  · rintro ⟨split, left, right, hstart, hstop, hleft, hright, hexpands, rfl⟩
    obtain ⟨heads, hgroup, hhead⟩ := hgrammar.expands_iff_mem_groups.mp hexpands
    refine ⟨split, ⟨hstart, hstop⟩, ((left, right), heads), hgroup, ?_⟩
    simp [hleft, hright, hhead]

variable (hgrammar : grammar.Indexes (headLabels rules) rules)
  (hknown : ∀ constituent, known constituent = true ↔ grammar.Yields tokens constituent)

include hgrammar hknown

theorem mem_witnesses_iff :
    witness ∈ grammar.witnesses known tokens constituent ↔
      grammar.Backs tokens constituent witness := by
  rw [witnesses, List.mem_append, mem_leafWitnesses_iff, mem_splitWitnesses_iff hgrammar]
  simp only [hknown]
  rcases constituent with ⟨symbol, ⟨start, stop⟩⟩
  dsimp only
  constructor
  · rintro (⟨token, terminal, htoken, hterminal, rfl, hhead, rfl⟩ |
      ⟨split, left, right, -, -, hleft, hright, hhead, rfl⟩)
    · exact .leaf htoken hterminal hhead
    · exact .split hhead hleft hright
  · intro h
    cases h with
    | leaf htoken hterminal hhead =>
        exact .inl ⟨_, _, htoken, hterminal, rfl, hhead, rfl⟩
    | split hhead hleft hright =>
        exact .inr ⟨_, _, _, hleft.within.start_lt, hright.within.start_lt, hleft, hright, hhead,
          rfl⟩

theorem witnesses_ne_nil_iff :
    grammar.witnesses known tokens constituent ≠ [] ↔ grammar.Yields tokens constituent := by
  rw [yields_iff_exists_backs]
  constructor
  · intro hne
    obtain ⟨witness, hwitness⟩ := List.exists_mem_of_ne_nil _ hne
    exact ⟨witness, (mem_witnesses_iff hgrammar hknown).mp hwitness⟩
  · rintro ⟨witness, hbacks⟩
    exact List.ne_nil_of_mem ((mem_witnesses_iff hgrammar hknown).mpr hbacks)

end Backs

end Grammar

end ChartParsing
