import ChartParsing.Diagnostic

/-!
# Chomsky normal form and derivations between labels

What a list of productions means, said on labels alone.  A label is a
nonterminal if it stands on the left of some production of the list.  The
productions in Chomsky normal form expand a label to one terminal or to two
nonterminals; they are what derivations go by.
-/

namespace ChartParsing

def headLabels (rules : List Production) : List String := rules.map Production.lhs

/-- A production of the list that is in Chomsky normal form. -/
inductive Normal (rules : List Production) : Production → Prop
  | terminal {lhs token : String} (hrule : ⟨lhs, [token]⟩ ∈ rules)
      (htoken : token ∉ headLabels rules) : Normal rules ⟨lhs, [token]⟩
  | pair {lhs left right : String} (hrule : ⟨lhs, [left, right]⟩ ∈ rules)
      (hleft : left ∈ headLabels rules) (hright : right ∈ headLabels rules) :
      Normal rules ⟨lhs, [left, right]⟩

/-- The label derives exactly these tokens by productions in Chomsky normal form. -/
inductive Derives (rules : List Production) : String → List String → Prop
  | token {lhs token : String} (hrule : Normal rules ⟨lhs, [token]⟩) : Derives rules lhs [token]
  | pair {lhs left right : String} {first second : List String}
      (hrule : Normal rules ⟨lhs, [left, right]⟩) (hleft : Derives rules left first)
      (hright : Derives rules right second) : Derives rules lhs (first ++ second)

variable {rules : List Production} {lhs : String} {tokens : List String}

theorem Normal.mem {rule : Production} (h : Normal rules rule) : rule ∈ rules := by
  cases h with
  | terminal hrule _ => exact hrule
  | pair hrule _ _ => exact hrule

theorem Normal.lhs_mem {rule : Production} (h : Normal rules rule) :
    rule.lhs ∈ headLabels rules :=
  List.mem_map_of_mem h.mem

theorem Normal.of_rhs {other : String} {rhs : List String} (h : Normal rules ⟨lhs, rhs⟩)
    (hother : ⟨other, rhs⟩ ∈ rules) : Normal rules ⟨other, rhs⟩ := by
  cases h with
  | terminal _ htoken => exact .terminal hother htoken
  | pair _ hleft hright => exact .pair hother hleft hright

theorem Normal.length_rhs {rule : Production} (h : Normal rules rule) :
    rule.rhs.length = 2 ∨ rule.rhs.length = 1 := by
  cases h with
  | terminal _ _ => exact .inr rfl
  | pair _ _ _ => exact .inl rfl

theorem Derives.lhs_mem (h : Derives rules lhs tokens) : lhs ∈ headLabels rules := by
  cases h with
  | token hrule => exact hrule.lhs_mem
  | pair hrule _ _ => exact hrule.lhs_mem

theorem Derives.ne_nil (h : Derives rules lhs tokens) : tokens ≠ [] := by
  induction h with
  | token _ => simp
  | pair _ _ _ ihLeft _ => simp [ihLeft]

/-! ## The rules as lists -/

def Production.unary? (nonterminals : List String) (rule : Production) :
    Option (String × String) :=
  match rule.rhs with
  | [token] => if token ∈ nonterminals then none else some (token, rule.lhs)
  | _ => none

def Production.binary? (nonterminals : List String) (rule : Production) :
    Option ((String × String) × String) :=
  match rule.rhs with
  | [left, right] =>
      if left ∈ nonterminals ∧ right ∈ nonterminals then some ((left, right), rule.lhs) else none
  | _ => none

theorem Production.unary?_eq_some_iff {nonterminals : List String} {rule : Production}
    {token : String} :
    rule.unary? nonterminals = some (token, lhs) ↔
      rule = ⟨lhs, [token]⟩ ∧ token ∉ nonterminals := by
  rcases rule with ⟨ruleLhs, rhs⟩
  constructor
  · intro h
    simp only [Production.unary?] at h
    split at h
    · split at h
      · cases h
      · rename_i htoken
        cases h
        exact ⟨rfl, htoken⟩
    · cases h
  · rintro ⟨hrule, htoken⟩
    cases hrule
    simp [Production.unary?, htoken]

theorem Production.binary?_eq_some_iff {nonterminals : List String} {rule : Production}
    {left right : String} :
    rule.binary? nonterminals = some ((left, right), lhs) ↔
      rule = ⟨lhs, [left, right]⟩ ∧ left ∈ nonterminals ∧ right ∈ nonterminals := by
  rcases rule with ⟨ruleLhs, rhs⟩
  constructor
  · intro h
    simp only [Production.binary?] at h
    split at h
    · split at h
      · rename_i hboth
        cases h
        exact ⟨rfl, hboth⟩
      · cases h
    · cases h
  · rintro ⟨hrule, hboth⟩
    cases hrule
    simp [Production.binary?, hboth]

theorem mem_unary_iff {token : String} :
    (token, lhs) ∈ rules.filterMap (Production.unary? (headLabels rules)) ↔
      Normal rules ⟨lhs, [token]⟩ := by
  simp only [List.mem_filterMap, Production.unary?_eq_some_iff]
  constructor
  · rintro ⟨rule, hrule, rfl, htoken⟩
    exact .terminal hrule htoken
  · intro h
    cases h with
    | terminal hrule htoken => exact ⟨_, hrule, rfl, htoken⟩

theorem mem_binary_iff {left right : String} :
    ((left, right), lhs) ∈ rules.filterMap (Production.binary? (headLabels rules)) ↔
      Normal rules ⟨lhs, [left, right]⟩ := by
  simp only [List.mem_filterMap, Production.binary?_eq_some_iff]
  constructor
  · rintro ⟨rule, hrule, rfl, hleft, hright⟩
    exact .pair hrule hleft hright
  · intro h
    cases h with
    | pair hrule hleft hright => exact ⟨_, hrule, rfl, hleft, hright⟩

/-! ## Productions out of normal form -/

def Production.violation? (nonterminals : List String) (rule : Production) : Option Violation :=
  match rule.rhs with
  | [token] => if token ∈ nonterminals then some .loneNonterminal else none
  | [left, right] =>
      if left ∈ nonterminals ∧ right ∈ nonterminals then none else some .mixedPair
  | rhs => some (.wrongLength rhs.length)

theorem normal_iff {rule : Production} :
    Normal rules rule ↔ rule ∈ rules ∧ rule.violation? (headLabels rules) = none := by
  constructor
  · intro h
    refine ⟨h.mem, ?_⟩
    cases h with
    | terminal _ htoken => simp [Production.violation?, htoken]
    | pair _ hleft hright => simp [Production.violation?, hleft, hright]
  · rintro ⟨hrule, hfine⟩
    rcases rule with ⟨lhs, _ | ⟨first, _ | ⟨second, _ | ⟨third, rest⟩⟩⟩⟩
    · cases hfine
    · exact .terminal hrule (by simpa [Production.violation?] using hfine)
    · have hboth : first ∈ headLabels rules ∧ second ∈ headLabels rules := by
        simpa [Production.violation?] using hfine
      exact .pair hrule hboth.1 hboth.2
    · cases hfine

def Production.diagnostic? (nonterminals : List String) (rule : Production) :
    Option Diagnostic :=
  (rule.violation? nonterminals).map (.dropped rule)

def vocabulary (nonterminals : List String) (rules : List Production) : List String :=
  nonterminals ++ (rules.filterMap (Production.unary? nonterminals)).map Prod.fst

end ChartParsing
