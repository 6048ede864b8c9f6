import ChartParsing.Grammar.Listing
import ChartParsing.Proofs.Quoting
import ChartParsing.Proofs.Tables
import Mathlib.Data.List.Nodup

/-!
# Listings

A listing has one line for each distinct rule in normal form: the rules of two
nonterminals in order of their right-hand sides, then those of a terminal in
order of the terminals.  The lines, and so the rules, can be told from the
listing: a nonterminal ends at the first separator, a terminal at its closing
quote, and a terminal that looks like lines of a listing has its quotes and its
ends of line escaped.
-/

namespace ChartParsing

open Outcome FirstAppearance

/-! ## The rules in the order of a listing -/

section Rules

variable {rules : List Production}

def rightSides (rules : List Production) : List (List String) :=
  (pairLabels rules).map (fun pair => [pair.1, pair.2]) ++
    (terminalLabels rules).map fun token => [token]

/-- The distinct rules, by right-hand side and then by first appearance. -/
def listedRules (rules : List Production) : List Production :=
  (rightSides rules).flatMap fun rhs => (headsOf rules rhs).map fun lhs => ⟨lhs, rhs⟩

theorem mem_headsOf_iff {lhs : String} {rhs : List String} :
    lhs ∈ headsOf rules rhs ↔ ⟨lhs, rhs⟩ ∈ rules := by
  simp only [headsOf, List.mem_eraseDups, List.mem_map, List.mem_filter, decide_eq_true_eq]
  constructor
  · rintro ⟨rule, ⟨hrule, rfl⟩, rfl⟩
    exact hrule
  · intro h
    exact ⟨_, ⟨h, rfl⟩, rfl⟩

theorem mem_rightSides_iff {rhs : List String} :
    rhs ∈ rightSides rules ↔ ∃ lhs, Normal rules ⟨lhs, rhs⟩ := by
  simp only [rightSides, List.mem_append, List.mem_map]
  constructor
  · rintro (⟨⟨left, right⟩, hpair, rfl⟩ | ⟨token, htoken, rfl⟩)
    · exact mem_pairLabels_iff.mp hpair
    · exact mem_terminalLabels_iff.mp htoken
  · rintro ⟨lhs, hrule⟩
    cases hrule with
    | @terminal _ token hrule htoken =>
        exact .inr ⟨token, mem_terminalLabels_iff.mpr ⟨lhs, .terminal hrule htoken⟩, rfl⟩
    | @pair _ left right hrule hleft hright =>
        exact .inl ⟨(left, right), mem_pairLabels_iff.mpr ⟨lhs, .pair hrule hleft hright⟩, rfl⟩

theorem mem_listedRules_iff {rule : Production} : rule ∈ listedRules rules ↔ Normal rules rule := by
  simp only [listedRules, List.mem_flatMap, List.mem_map, mem_rightSides_iff, mem_headsOf_iff]
  constructor
  · rintro ⟨rhs, ⟨lhs, hnormal⟩, other, hother, rfl⟩
    exact hnormal.of_rhs hother
  · intro h
    exact ⟨rule.rhs, ⟨rule.lhs, h⟩, rule.lhs, h.mem, rfl⟩

theorem nodup_rightSides (rules : List Production) : (rightSides rules).Nodup := by
  rw [rightSides, List.nodup_append]
  refine ⟨(nodup_eraseDups _).map ?_, (nodup_eraseDups _).map ?_, ?_⟩
  · rintro ⟨left, right⟩ ⟨left', right'⟩ h
    simpa using h
  · intro token token' h
    simpa using h
  · intro rhs hrhs other hother heq
    rcases List.mem_map.mp hrhs with ⟨pair, -, rfl⟩
    rcases List.mem_map.mp hother with ⟨token, -, rfl⟩
    cases heq

theorem nodup_listedRules (rules : List Production) : (listedRules rules).Nodup := by
  rw [listedRules, List.nodup_flatMap]
  constructor
  · intro rhs _
    apply (nodup_eraseDups _).map
    intro lhs other h
    exact congrArg Production.lhs h
  · refine (nodup_rightSides rules).imp fun {rhs other} hne => ?_
    intro rule hrule hother
    rcases List.mem_map.mp hrule with ⟨lhs, -, rfl⟩
    rcases List.mem_map.mp hother with ⟨lhs', -, heq⟩
    exact hne (congrArg Production.rhs heq).symm

theorem mem_rulesOfLength_iff {rule : Production} {length : Nat} :
    rule ∈ rulesOfLength rules length ↔ Normal rules rule ∧ rule.rhs.length = length := by
  simp only [rulesOfLength, List.mem_eraseDups, List.mem_filter, decide_eq_true_eq, normal_iff,
    and_assoc]

theorem length_listedRules (rules : List Production) :
    (listedRules rules).length =
      (rulesOfLength rules 2).length + (rulesOfLength rules 1).length := by
  have hnodup : (rulesOfLength rules 2 ++ rulesOfLength rules 1).Nodup := by
    rw [List.nodup_append]
    refine ⟨nodup_eraseDups _, nodup_eraseDups _, ?_⟩
    rintro rule hrule _ hother rfl
    have htwo := (mem_rulesOfLength_iff.mp hrule).2
    have hone := (mem_rulesOfLength_iff.mp hother).2
    omega
  have hperm : (listedRules rules).Perm (rulesOfLength rules 2 ++ rulesOfLength rules 1) := by
    rw [List.perm_ext_iff_of_nodup (nodup_listedRules rules) hnodup]
    intro rule
    rw [mem_listedRules_iff, List.mem_append, mem_rulesOfLength_iff, mem_rulesOfLength_iff,
      ← and_or_left]
    constructor
    · intro h
      exact ⟨h, h.length_rhs⟩
    · exact And.left
  rw [hperm.length_eq, List.length_append]

end Rules

/-! ## Lines -/

def Production.line (rule : Production) : String :=
  match rule.rhs with
  | [left, right] => s!"{rule.lhs} ::= {left} ~ {right};\n"
  | [token] => s!"{rule.lhs} ::= {Text.quoted token};\n"
  | _ => ""

namespace Grammar

section Lines

variable {grammar : Grammar} {rules : List Production}

theorem Indexes.binaryLine_eq (h : grammar.Indexes (headLabels rules) rules)
    {left right head : Symbol} {leftLabel rightLabel lhs : String}
    (hleft : grammar.Names left leftLabel) (hright : grammar.Names right rightLabel)
    (hhead : grammar.Names head lhs) :
    grammar.binaryLine left right head = .ok (Production.line ⟨lhs, [leftLabel, rightLabel]⟩) := by
  rw [binaryLine, h.label_eq_ok_iff.mpr hleft, h.label_eq_ok_iff.mpr hright,
    h.label_eq_ok_iff.mpr hhead]
  rfl

theorem Indexes.unaryLine_eq (h : grammar.Indexes (headLabels rules) rules)
    {terminal head : Symbol} {token lhs : String} (hterminal : grammar.Names terminal token)
    (hhead : grammar.Names head lhs) :
    grammar.unaryLine terminal head = .ok (Production.line ⟨lhs, [token]⟩) := by
  rw [unaryLine, h.label_eq_ok_iff.mpr hterminal, h.label_eq_ok_iff.mpr hhead]
  rfl

theorem Indexes.map_id_terminals (h : grammar.Indexes (headLabels rules) rules) :
    (grammar.unary.groups.map Prod.fst).map Symbol.id =
      List.range' (headLabels rules).eraseDups.length (terminalLabels rules).length := by
  have hnodup : ((headLabels rules).eraseDups ++ terminalLabels rules).Nodup := by
    rw [← h.labels_eq, h.symbols.labels_eq]
    exact nodup_eraseDups _
  have hgroups := h.forall₂_unaryGroups
  apply List.ext_getElem
  · simp [hgroups.length_eq]
  · intro index hleft hright
    have hlt : index < (terminalLabels rules).length := by simpa using hright
    have hname := (hgroups.get (by simpa using hleft) hlt).1
    have hid := (h.names_iff _ _).mp hname
    have hplace : ((headLabels rules).eraseDups ++ terminalLabels rules)[
        (headLabels rules).eraseDups.length + index]? = some (terminalLabels rules)[index] := by
      simp [hlt]
    -- No label stands at two places, so the number of the symbol is the place of the label.
    have heq := (List.getElem?_inj (by simpa using hlt) hnodup).mp (hplace.trans hid.symm)
    simpa using heq.symm

theorem Indexes.pairwise_terminals (h : grammar.Indexes (headLabels rules) rules) :
    (grammar.unary.groups.map Prod.fst).Pairwise
      fun first second => first.id < second.id := by
  have hsorted : (List.range' (headLabels rules).eraseDups.length
      (terminalLabels rules).length).Pairwise (· < ·) := List.pairwise_lt_range' 1
  rw [← h.map_id_terminals, List.pairwise_map] at hsorted
  exact hsorted

theorem Indexes.terminals_eq (h : grammar.Indexes (headLabels rules) rules) :
    grammar.terminals = grammar.unary.groups.map Prod.fst := by
  apply List.mergeSort_of_pairwise
  exact h.pairwise_terminals.imp fun hlt => by simpa using Symbol.code_le_of_id_lt hlt

theorem Indexes.lines_eq (h : grammar.Indexes (headLabels rules) rules) :
    grammar.lines = .ok ((listedRules rules).map Production.line) := by
  have hbinary : (grammar.binary.groups.mapM fun group =>
      group.2.mapM (grammar.binaryLine group.1.1 group.1.2)) =
      .ok ((pairLabels rules).map fun pair => (headsOf rules [pair.1, pair.2]).map fun lhs =>
        Production.line ⟨lhs, [pair.1, pair.2]⟩) := by
    apply mapM_eq_ok_of_forall₂
    refine h.forall₂_binaryGroups.imp fun group pair hgroup => ?_
    apply mapM_eq_ok_of_forall₂
    exact hgroup.2.imp fun head lhs hhead => h.binaryLine_eq hgroup.1.1 hgroup.1.2 hhead
  have hunary : (grammar.terminals.mapM fun terminal =>
      (grammar.unaryHeads terminal).mapM (grammar.unaryLine terminal)) =
      .ok ((terminalLabels rules).map fun token => (headsOf rules [token]).map fun lhs =>
        Production.line ⟨lhs, [token]⟩) := by
    rw [h.terminals_eq]
    apply mapM_eq_ok_of_forall₂
    rw [List.forall₂_map_left_iff]
    apply forall₂_of_mem h.forall₂_unaryGroups
    intro group _ token htoken hgroup
    apply mapM_eq_ok_of_forall₂
    exact (h.forall₂_unaryHeads htoken hgroup.1).imp fun head lhs hhead =>
      h.unaryLine_eq hgroup.1 hhead
  rw [lines, bind_eq_ok]
  refine ⟨_, hbinary, bind_eq_ok.mpr ⟨_, hunary, ?_⟩⟩
  simp only [pure, Except.pure, listedRules, rightSides, List.flatMap_append, List.map_append,
    List.flatMap_map, List.map_flatMap, List.map_map]
  rfl

theorem Indexes.listing_eq (h : grammar.Indexes (headLabels rules) rules) :
    grammar.listing = .ok (String.join ((listedRules rules).map Production.line)) := by
  rw [listing, h.lines_eq]
  rfl

end Lines

end Grammar

/-! ## Reading lines -/

def separators : List Char := [' ', '\n', '"']

def PlainHeads (rules : List Production) : Prop :=
  ∀ label ∈ headLabels rules, ∀ c ∈ label.toList, c ∉ separators

/-- The labels of the rule have no separators, but for those of the terminal. -/
inductive Production.Legible : Production → Prop
  | terminal {lhs token : String} (hlhs : ∀ c ∈ lhs.toList, c ∉ separators) :
      Legible ⟨lhs, [token]⟩
  | pair {lhs left right : String} (hlhs : ∀ c ∈ lhs.toList, c ∉ separators)
      (hleft : ∀ c ∈ left.toList, c ∉ separators) (hright : ∀ c ∈ right.toList, c ∉ separators) :
      Legible ⟨lhs, [left, right]⟩

theorem Normal.legible {rules : List Production} {rule : Production} (h : Normal rules rule)
    (hplain : PlainHeads rules) : rule.Legible := by
  have hlhs := hplain rule.lhs h.lhs_mem
  cases h with
  | terminal _ _ => exact .terminal hlhs
  | pair _ hleft hright => exact .pair hlhs (hplain _ hleft) (hplain _ hright)

namespace Production

def sideChars : List String → List Char
  | [left, right] => left.toList ++ ' ' :: '~' :: ' ' :: (right.toList ++ [';', '\n'])
  | [token] => '"' :: (token.toList.flatMap Text.escape ++ ['"', ';', '\n'])
  | _ => []

theorem Legible.plain_lhs {rule : Production} (h : rule.Legible) :
    ∀ c ∈ rule.lhs.toList, c ∉ separators := by
  cases h with
  | terminal hlhs => exact hlhs
  | pair hlhs _ _ => exact hlhs

theorem Legible.toList_line {rule : Production} (h : rule.Legible) :
    rule.line.toList =
      rule.lhs.toList ++ ' ' :: ':' :: ':' :: '=' :: ' ' :: sideChars rule.rhs := by
  cases h with
  | terminal _ =>
      simp only [line, Text.quoted, toString, String.toList_append, String.toList_ofList,
        List.append_assoc]
      rfl
  | pair _ _ _ =>
      simp only [line, String.toList_append, List.append_assoc]
      rfl

theorem Legible.line_eq {rule : Production} (h : rule.Legible) :
    ∃ body, rule.line.toList = body ++ ['\n'] ∧ '\n' ∉ body := by
  have hword {word : List Char} (hword : ∀ c ∈ word, c ∉ separators) : '\n' ∉ word :=
    fun hmem => hword _ hmem (by simp [separators])
  have hside : ∃ body, sideChars rule.rhs = body ++ ['\n'] ∧ '\n' ∉ body := by
    cases h with
    | @terminal _ token _ =>
        refine ⟨'"' :: (token.toList.flatMap Text.escape ++ ['"', ';']), by simp [sideChars], ?_⟩
        simp [Text.newline_not_mem_escape]
    | @pair _ left right _ hleft hright =>
        refine ⟨left.toList ++ ' ' :: '~' :: ' ' :: (right.toList ++ [';']),
          by simp [sideChars], ?_⟩
        simp [hword hleft, hword hright]
  rcases hside with ⟨body, hbody, hnone⟩
  refine ⟨rule.lhs.toList ++ ' ' :: ':' :: ':' :: '=' :: ' ' :: body, ?_, ?_⟩
  · simp [h.toList_line, hbody]
  · simp [hword h.plain_lhs, hnone]

section Reading

variable {word other rest otherRest : List Char}

theorem append_inj_of_separators (hword : ∀ c ∈ word, c ∉ separators)
    (hother : ∀ c ∈ other, c ∉ separators) {c d : Char} (hc : c ∈ separators)
    (hd : d ∈ separators) (h : word ++ c :: rest = other ++ d :: otherRest) :
    word = other ∧ c = d ∧ rest = otherRest := by
  rcases Text.append_inj_of_marks hword hother (by simpa using hc) (by simpa using hd) h with
    ⟨hwords, hrests⟩
  exact ⟨hwords, List.cons.inj hrests⟩

theorem append_ne_quote (hword : ∀ c ∈ word, c ∉ separators) :
    word ++ ' ' :: rest ≠ '"' :: otherRest := by
  intro h
  have hnone : ∀ c ∈ ([] : List Char), c ∉ separators := nofun
  rcases append_inj_of_separators hword hnone (by simp [separators]) (by simp [separators]) h with
    ⟨-, hc, -⟩
  cases hc

theorem Legible.sideChars_inj {rule other : Production} (hrule : rule.Legible)
    (hother : other.Legible)
    (h : sideChars rule.rhs ++ rest = sideChars other.rhs ++ otherRest) :
    rule.rhs = other.rhs ∧ rest = otherRest := by
  cases hrule with
  | terminal _ =>
      cases hother with
      | terminal _ =>
          simp only [sideChars, List.append_assoc, List.cons_append, List.nil_append,
            List.cons.injEq, true_and] at h
          rcases Text.flatMap_escape_inj h with ⟨htokens, hrests⟩
          simp only [List.cons.injEq, true_and] at hrests
          rw [String.toList_inj.mp htokens]
          exact ⟨rfl, hrests⟩
      | pair _ hleft _ =>
          simp only [sideChars, List.append_assoc, List.cons_append] at h
          exact absurd h.symm (append_ne_quote hleft)
  | @pair _ _ right _ hleft hright =>
      cases hother with
      | terminal _ =>
          simp only [sideChars, List.append_assoc, List.cons_append] at h
          exact absurd h (append_ne_quote hleft)
      | @pair _ _ otherRight _ hotherLeft hotherRight =>
          have hblank : ' ' ∈ separators := by simp [separators]
          have hend : '\n' ∈ separators := by simp [separators]
          simp only [sideChars, List.append_assoc, List.cons_append, List.nil_append] at h
          rcases append_inj_of_separators hleft hotherLeft hblank hblank h with ⟨hlefts, -, h⟩
          simp only [List.cons.injEq, true_and] at h
          -- A semicolon may be part of the label on the right, so the line is read to its end.
          have hclosed {label : String} (hlabel : ∀ c ∈ label.toList, c ∉ separators) :
              ∀ c ∈ label.toList ++ [';'], c ∉ separators := by
            intro c hc
            rcases List.mem_append.mp hc with hc | hc
            · exact hlabel c hc
            · rw [List.mem_singleton.mp hc]
              simp [separators]
          have hlast : (right.toList ++ [';']) ++ '\n' :: rest =
              (otherRight.toList ++ [';']) ++ '\n' :: otherRest := by
            simpa using h
          rcases append_inj_of_separators (hclosed hright) (hclosed hotherRight) hend hend
            hlast with ⟨hrights, -, hrests⟩
          rw [String.toList_inj.mp hlefts,
            String.toList_inj.mp (List.append_cancel_right hrights)]
          exact ⟨rfl, hrests⟩

end Reading

theorem readable_line :
    Text.Readable (fun rule : Production => rule.line.toList) Legible (fun rest => rest = []) where
  not_ends rule hrule rest h := by
    rcases hrule.line_eq with ⟨body, hbody, -⟩
    simp [hbody] at h
  append_inj rule other hrule hother rest otherRest h := by
    have hblank : ' ' ∈ separators := by simp [separators]
    simp only [hrule.toList_line, hother.toList_line, List.append_assoc, List.cons_append] at h
    rcases append_inj_of_separators hrule.plain_lhs hother.plain_lhs hblank hblank h with
      ⟨hlabels, -, h⟩
    simp only [List.cons.injEq, true_and] at h
    rcases hrule.sideChars_inj hother h with ⟨hsides, hrests⟩
    rcases rule with ⟨lhs, rhs⟩
    rcases other with ⟨otherLhs, otherRhs⟩
    exact ⟨congrArg₂ Production.mk (String.toList_inj.mp hlabels) hsides, hrests⟩

end Production

/-! ## Listings -/

namespace Grammar

/-- The text lists the distinct rules in normal form, each on a line of its own. -/
structure Listed (grammar : Grammar) (rules : List Production) (text : String) : Prop where
  text_eq : text = String.join ((listedRules rules).map Production.line)
  line_eq : ∀ rule ∈ listedRules rules,
    ∃ body, rule.line.toList = body ++ ['\n'] ∧ '\n' ∉ body
  count_eq : text.toList.count '\n' = grammar.numBinaryRules + grammar.numUnaryRules
  length_eq : (listedRules rules).length = grammar.numBinaryRules + grammar.numUnaryRules
  nodup : (listedRules rules).Nodup
  mem_iff : ∀ rule, rule ∈ listedRules rules ↔ Normal rules rule
  terminals_eq : grammar.terminals = grammar.unary.groups.map Prod.fst
  sorted : (grammar.unary.groups.map Prod.fst).Pairwise fun first second => first.id < second.id

section Listing

variable {grammar : Grammar} {rules others : List Production} {text : String}

theorem Indexes.listed (h : grammar.Indexes (headLabels rules) rules) (hplain : PlainHeads rules)
    (htext : grammar.listing = .ok text) : grammar.Listed rules text := by
  have htext_eq : text = String.join ((listedRules rules).map Production.line) :=
    Except.ok.inj (htext.symm.trans h.listing_eq)
  have hlength : (listedRules rules).length = grammar.numBinaryRules + grammar.numUnaryRules := by
    rw [length_listedRules, h.numBinaryRules_eq, h.numUnaryRules_eq]
  have hlines : ∀ rule ∈ listedRules rules,
      ∃ body, rule.line.toList = body ++ ['\n'] ∧ '\n' ∉ body := fun rule hrule =>
    ((mem_listedRules_iff.mp hrule).legible hplain).line_eq
  have hcounts : ∀ rule ∈ listedRules rules,
      (List.count '\n' ∘ fun rule : Production => rule.line.toList) rule = 1 := by
    intro rule hrule
    rcases hlines rule hrule with ⟨body, hbody, hnone⟩
    simp [hbody, List.count_eq_zero.mpr hnone]
  refine ⟨htext_eq, hlines, ?_, hlength, nodup_listedRules rules,
    fun rule => mem_listedRules_iff, h.terminals_eq, h.pairwise_terminals⟩
  rw [htext_eq, String.toList_join, List.flatMap_map, List.count_flatMap,
    List.map_congr_left hcounts, List.map_const', List.sum_replicate_nat, hlength]
  simp

theorem listedRules_inj (hplain : PlainHeads rules) (hother : PlainHeads others)
    (h : String.join ((listedRules rules).map Production.line) =
      String.join ((listedRules others).map Production.line)) :
    listedRules rules = listedRules others := by
  have hlines := congrArg String.toList h
  rw [String.toList_join, String.toList_join, List.flatMap_map, List.flatMap_map] at hlines
  refine (Production.readable_line.flatMap_inj ?_ ?_ rfl rfl (congrArg (· ++ []) hlines)).1
  · intro rule hrule
    exact (mem_listedRules_iff.mp hrule).legible hplain
  · intro rule hrule
    exact (mem_listedRules_iff.mp hrule).legible hother

end Listing

/--
Where no nonterminal has a blank, an end of line or a quote in it, the productions compile and are
listed with one line for each distinct rule, and two listings are the same if and only if the rules
are, in their order; terminals may be any texts.
-/
theorem listing_determines_rules {rules : List Production} (hplain : PlainHeads rules)
    (hrules : rules.length < Word.limit)
    (hlabels : (vocabulary (headLabels rules) rules).eraseDups.length < Symbol.limit) :
    ∃ compilation text, compile rules = .ok compilation ∧
      compilation.grammar.listing = .ok text ∧ compilation.grammar.Listed rules text ∧
      ∀ others other otherText, PlainHeads others → compile others = .ok other →
        other.grammar.listing = .ok otherText →
        (text = otherText ↔ listedRules rules = listedRules others) := by
  rcases exists_compile hlabels hrules with ⟨compilation, hcompile⟩
  have hgrammar := indexes_of_compile hcompile
  have hlisted := hgrammar.listed hplain hgrammar.listing_eq
  refine ⟨compilation, _, hcompile, hgrammar.listing_eq, hlisted, ?_⟩
  intro others other otherText hotherPlain hother hotherText
  have hotherListed := (indexes_of_compile hother).listed hotherPlain hotherText
  rw [hotherListed.text_eq]
  constructor
  · exact listedRules_inj hplain hotherPlain
  · intro h
    rw [h]

def genuine : List Production := [⟨"S", ["A", "A"]⟩, ⟨"A", ["a"]⟩, ⟨"A", ["b"]⟩]

/-- One terminal that has in it what stands between the two on the lines of their rules. -/
def forged : List Production := [⟨"S", ["A", "A"]⟩, ⟨"A", ["a\";\nA ::= \"b"]⟩]

theorem listing_determines_forged :
    PlainHeads genuine ∧ PlainHeads forged ∧ genuine.length < Word.limit ∧
      (vocabulary (headLabels genuine) genuine).eraseDups.length < Symbol.limit ∧
      ∃ compilation text other otherText, compile genuine = .ok compilation ∧
        compilation.grammar.listing = .ok text ∧ compilation.grammar.Listed genuine text ∧
        text = "S ::= A ~ A;\nA ::= \"a\";\nA ::= \"b\";\n" ∧
        compile forged = .ok other ∧ other.grammar.listing = .ok otherText ∧
        text ≠ otherText := by
  have hplain : PlainHeads genuine ∧ PlainHeads forged := by
    simp [PlainHeads, headLabels, genuine, forged, separators]
  have hlabels : (vocabulary (headLabels genuine) genuine).eraseDups.length < Symbol.limit := by
    decide +kernel
  have hforged : (vocabulary (headLabels forged) forged).eraseDups.length < Symbol.limit := by
    decide +kernel
  have hrules : genuine.length < Word.limit ∧ forged.length < Word.limit := by
    decide
  rcases listing_determines_rules hplain.1 hrules.1 hlabels with
    ⟨compilation, text, hcompile, htext, hlisted, hiff⟩
  rcases exists_compile hforged hrules.2 with ⟨other, hother⟩
  have hotherText := (indexes_of_compile hother).listing_eq
  refine ⟨hplain.1, hplain.2, hrules.1, hlabels, compilation, text, other, _, hcompile, htext,
    hlisted, ?_, hother, hotherText, ?_⟩
  · rw [hlisted.text_eq]
    decide +kernel
  · rw [ne_eq, hiff forged other _ hplain.2 hother hotherText]
    decide +kernel

end Grammar

end ChartParsing
