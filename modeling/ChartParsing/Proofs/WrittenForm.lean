import ChartParsing.Json.Codec
import ChartParsing.Proofs.Nodes
import ChartParsing.Proofs.Outcome
import Mathlib.Tactic.Simproc.ExistsAndEq

/-!
# Written forms

A value has one written form, and a reader takes further forms of it: an array
for an object, keys that do not matter, a missing bound, a choice as the key of
a null.  Whatever form was read, from then on the written form is read as the
value that it was written from.

Positions and counts are natural numbers here and machine words in the written
form, so this holds of the values whose numbers are machine words.  A reader
gives no others.
-/

namespace ChartParsing

open Outcome

/--
Reading inverts writing on the values that fit, what is read fits, and writing what was read,
reading that and writing it again changes nothing any more.
-/
structure RoundTrips {α : Type} (fits : α → Prop) (write : α → Json) (read? : Json → Option α) :
    Prop where
  read_write : ∀ value, fits value → read? (write value) = some value
  fits_of_read : ∀ json value, read? json = some value → fits value
  fixed : ∀ json value, read? json = some value →
      (read? (write value)).map write = some (write value) := fun json value hread => by
    rw [read_write value (fits_of_read json value hread), Option.map_some]

/-! ## Parts of a value -/

namespace Json

section Parts

variable {json : Json}

@[simp] theorem word?_eq_some_iff {value : Nat} :
    json.word? = some value ↔ json = .nat value ∧ value < Word.limit := by
  constructor
  · intro h
    unfold word? at h
    split at h
    · split at h
      · cases h
        exact ⟨rfl, ‹_›⟩
      · cases h
    · cases h
  · rintro ⟨rfl, hvalue⟩
    simp [word?, nat, hvalue]

@[simp] theorem string?_eq_some_iff {value : String} :
    json.string? = some value ↔ json = .string value := by
  cases json <;> simp [string?]

@[simp] theorem array?_eq_some_iff {items : List Json} :
    json.array? = some items ↔ json = .array items := by
  cases json <;> simp [array?]

theorem mapM_string?_eq_some_iff {items : List Json} {texts : List String} :
    items.mapM string? = some texts ↔ items = texts.map .string := by
  constructor
  · intro h
    induction items generalizing texts with
    | nil =>
        cases h
        rfl
    | cons item items ih =>
        simp only [List.mapM_cons, bind, Option.bind_eq_some_iff, string?_eq_some_iff] at h
        obtain ⟨text, rfl, rest, hrest, hall⟩ := h
        cases hall
        rw [ih hrest, List.map_cons]
  · rintro rfl
    have htexts : texts.mapM (string? ∘ string) = some (texts.map id) :=
      mapM_eq_pure fun _ _ => rfl
    rw [List.mapM_map, htexts, List.map_id]

theorem field?_object {fields : List (String × Json)} (hkeys : (fields.map Prod.fst).Nodup)
    {field : String × Json} (hfield : field ∈ fields) :
    (object fields).field? field.1 = some field.2 := by
  induction fields with
  | nil => cases hfield
  | cons first fields ih =>
      rw [List.map_cons, List.nodup_cons] at hkeys
      rcases List.mem_cons.mp hfield with rfl | hfield
      · simp [field?]
      · have hne : first.1 ≠ field.1 := by
          intro heq
          exact hkeys.1 (heq ▸ List.mem_map_of_mem hfield)
        simpa [field?, List.find?_cons, hne] using ih hkeys.2 hfield

theorem fields?_object (fields : List (String × Json)) (hkeys : (fields.map Prod.fst).Nodup) :
    (object fields).fields? (fields.map Prod.fst) = some (fields.map Prod.snd) := by
  rw [fields?, List.mapM_map]
  exact mapM_eq_pure fun field hfield => field?_object hkeys hfield

theorem partialRecord?_object (fields : List (String × Json))
    (hkeys : (fields.map Prod.fst).Nodup) :
    (object fields).partialRecord? (fields.map Prod.fst) = some (fields.map Prod.snd) := by
  rw [partialRecord?, List.map_map, Option.some.injEq]
  apply List.map_congr_left
  intro field hfield
  simp [field?_object hkeys hfield]

theorem pair_eq_some_iff {α : Type} {parts : Option (List Json)} {read? : Json → Json → Option α}
    {value : α} :
    (do
      let [first, second] ← parts | none
      read? first second) = some value ↔
      ∃ first second, parts = some [first, second] ∧ read? first second = some value := by
  rcases parts with _ | ⟨_ | ⟨first, _ | ⟨second, _ | ⟨third, rest⟩⟩⟩⟩ <;> simp

end Parts

end Json

/-! ## Records -/

section Records

variable {json : Json}

theorem Symbol.ofCode?_eq_some_iff {code : Nat} {symbol : Symbol} :
    Symbol.ofCode? code = some symbol ↔ code = symbol.code.toNat := by
  unfold Symbol.ofCode?
  constructor
  · intro h
    split at h
    · rename_i hlt
      split at h
      · cases h
      · cases h
        exact (UInt32.toNat_ofNat_of_lt' hlt).symm
    · cases h
  · rintro rfl
    have hcode : UInt32.ofNat symbol.code.toNat = symbol.code := UInt32.ofNat_toNat
    rw [if_pos symbol.code.toNat_lt, dif_neg (by rw [hcode]; exact symbol.code_ne_zero)]
    simp only [hcode]

theorem Symbol.ofJson?_eq_some_iff {symbol : Symbol} :
    Symbol.ofJson? json = some symbol ↔ json = symbol.toJson := by
  simp only [Symbol.ofJson?, Option.bind_eq_some_iff, Json.word?_eq_some_iff,
    Symbol.ofCode?_eq_some_iff]
  constructor
  · rintro ⟨_, ⟨rfl, -⟩, rfl⟩
    rfl
  · rintro rfl
    have hlt := symbol.code.toNat_lt
    exact ⟨_, ⟨rfl, by simp only [Word.limit]; omega⟩, rfl⟩

theorem Symbol.roundTrips : RoundTrips (fun _ => True) Symbol.toJson Symbol.ofJson? where
  read_write _ _ := Symbol.ofJson?_eq_some_iff.mpr rfl
  fits_of_read _ _ _ := trivial

def Span.InWords (span : Span) : Prop := span.start < Word.limit ∧ span.stop < Word.limit

theorem Span.ofJson?_eq_some_iff {span : Span} :
    Span.ofJson? json = some span ↔
      json.record? ["start", "end"] = some [.nat span.start, .nat span.stop] ∧ span.InWords := by
  refine Json.pair_eq_some_iff.trans ?_
  rcases span with ⟨start, stop⟩
  simp [Option.bind_eq_some_iff, Span.InWords]

theorem Span.roundTrips : RoundTrips Span.InWords Span.toJson Span.ofJson? where
  read_write span hspan := Span.ofJson?_eq_some_iff.mpr
    ⟨Json.fields?_object [("start", .nat span.start), ("end", .nat span.stop)] (by simp), hspan⟩
  fits_of_read _ _ hread := (Span.ofJson?_eq_some_iff.mp hread).2

def Stats.InWords (stats : Stats) : Prop :=
  stats.steps < Word.limit ∧ stats.combinations < Word.limit

theorem Stats.ofJson?_eq_some_iff {stats : Stats} :
    Stats.ofJson? json = some stats ↔
      json.record? ["steps", "combinations"] =
        some [.nat stats.steps, .nat stats.combinations] ∧ stats.InWords := by
  refine Json.pair_eq_some_iff.trans ?_
  rcases stats with ⟨steps, combinations⟩
  simp [Option.bind_eq_some_iff, Stats.InWords]

theorem Stats.roundTrips : RoundTrips Stats.InWords Stats.toJson Stats.ofJson? where
  read_write stats hstats := Stats.ofJson?_eq_some_iff.mpr
    ⟨Json.fields?_object [("steps", .nat stats.steps), ("combinations", .nat stats.combinations)]
      (by simp), hstats⟩
  fits_of_read _ _ hread := (Stats.ofJson?_eq_some_iff.mp hread).2

theorem Production.ofJson?_eq_some_iff {rule : Production} :
    Production.ofJson? json = some rule ↔
      json.record? ["lhs", "rhs"] = some [.string rule.lhs, .array (rule.rhs.map .string)] := by
  refine Json.pair_eq_some_iff.trans ?_
  rcases rule with ⟨lhs, rhs⟩
  simp [Option.bind_eq_some_iff, Json.mapM_string?_eq_some_iff]

theorem Production.roundTrips :
    RoundTrips (fun _ => True) Production.toJson Production.ofJson? where
  read_write rule _ := Production.ofJson?_eq_some_iff.mpr
    (Json.fields?_object [("lhs", .string rule.lhs), ("rhs", .array (rule.rhs.map .string))]
      (by simp))
  fits_of_read _ _ _ := trivial

def Limits.InWords (limits : Limits) : Prop :=
  (∀ bound ∈ limits.perNode, bound < Word.limit) ∧ ∀ bound ∈ limits.total, bound < Word.limit

theorem Limits.boundOfJson?_eq_some_iff {bound : Option Nat} :
    Limits.boundOfJson? json = some bound ↔
      json = Limits.boundToJson bound ∧ ∀ number ∈ bound, number < Word.limit := by
  cases bound <;> cases json <;> simp [boundOfJson?, boundToJson, Json.nat]

theorem Limits.ofJson?_eq_some_iff {limits : Limits} :
    Limits.ofJson? json = some limits ↔
      json.partialRecord? ["trees_per_node", "total_trees"] =
        some [boundToJson limits.perNode, boundToJson limits.total] ∧ limits.InWords := by
  refine Json.pair_eq_some_iff.trans ?_
  rcases limits with ⟨perNode, total⟩
  simp [Option.bind_eq_some_iff, Limits.InWords, Limits.boundOfJson?_eq_some_iff]

theorem Limits.roundTrips : RoundTrips Limits.InWords Limits.toJson Limits.ofJson? where
  read_write limits hlimits := Limits.ofJson?_eq_some_iff.mpr
    ⟨Json.partialRecord?_object [("trees_per_node", boundToJson limits.perNode),
      ("total_trees", boundToJson limits.total)] (by simp), hlimits⟩
  fits_of_read _ _ hread := (Limits.ofJson?_eq_some_iff.mp hread).2

end Records

/-! ## Choices -/

section Choices

variable {json : Json}

def Violation.InWords : Violation → Prop
  | .loneNonterminal | .mixedPair => True
  | .wrongLength length => length < Word.limit

theorem Violation.roundTrips : RoundTrips Violation.InWords Violation.toJson Violation.ofJson? where
  read_write violation hviolation := by
    cases violation with
    | loneNonterminal => rfl
    | mixedPair => rfl
    | wrongLength length =>
        have hlength : (Json.nat length).word? = some length :=
          Json.word?_eq_some_iff.mpr ⟨rfl, hviolation⟩
        simp [Violation.toJson, Violation.ofJson?, Json.string?, Json.single?, hlength]
  fits_of_read json violation hread := by
    unfold Violation.ofJson? at hread
    split at hread
    · cases hread
      trivial
    · cases hread
      trivial
    · cases hread
    · split at hread
      · cases hread
        trivial
      · cases hread
        trivial
      · rename_i length _
        obtain ⟨number, hnumber, rfl⟩ := Option.map_eq_some_iff.mp hread
        exact (Json.word?_eq_some_iff.mp hnumber).2
      · cases hread

def Diagnostic.InWords : Diagnostic → Prop
  | .dropped _ violation => violation.InWords
  | .unknownToken position _ => position < Word.limit
  | .unknownStart _ => True

theorem Diagnostic.roundTrips :
    RoundTrips Diagnostic.InWords Diagnostic.toJson Diagnostic.ofJson? where
  read_write diagnostic hdiagnostic := by
    cases diagnostic with
    | dropped rule violation =>
        refine Json.pair_eq_some_iff.mpr ⟨rule.toJson, violation.toJson,
          Json.fields?_object [("rule", rule.toJson), ("violation", violation.toJson)] (by simp),
          ?_⟩
        simp [Production.roundTrips.read_write rule trivial,
          Violation.roundTrips.read_write violation hdiagnostic]
    | unknownToken position token =>
        refine Json.pair_eq_some_iff.mpr ⟨.nat position, .string token,
          Json.fields?_object [("position", .nat position), ("token", .string token)] (by simp), ?_⟩
        have hposition : (Json.nat position).word? = some position :=
          Json.word?_eq_some_iff.mpr ⟨rfl, hdiagnostic⟩
        simp [hposition, Json.string?]
    | unknownStart label => rfl
  fits_of_read json diagnostic hread := by
    unfold Diagnostic.ofJson? at hread
    split at hread
    · obtain ⟨rule, violation, -, hread⟩ := Json.pair_eq_some_iff.mp hread
      simp only [bind, Option.bind_eq_some_iff] at hread
      obtain ⟨_, -, _, hviolation, hall⟩ := hread
      cases hall
      exact Violation.roundTrips.fits_of_read violation _ hviolation
    · obtain ⟨position, token, -, hread⟩ := Json.pair_eq_some_iff.mp hread
      simp only [bind, Option.bind_eq_some_iff] at hread
      obtain ⟨_, hposition, _, -, hall⟩ := hread
      cases hall
      exact (Json.word?_eq_some_iff.mp hposition).2
    · simp only [bind, Option.bind_eq_some_iff] at hread
      obtain ⟨parts, -, hread⟩ := hread
      split at hread
      · obtain ⟨label, -, hlabel⟩ := Option.bind_eq_some_iff.mp hread
        cases hlabel
        trivial
      · cases hread
    · cases hread

end Choices

/-! ## Trees -/

namespace Tree

def InWords (tree : Tree) : Prop := ∀ node ∈ tree.nodes, node.span.InWords

theorem ofJson?_eq_some_iff {json : Json} {symbol : Symbol} {span : Span} {children : List Tree} :
    ofJson? json = some ⟨symbol, span, children⟩ ↔ ∃ spanJson childrenJson,
      json.record? ["symbol", "span", "children"] =
        some [symbol.toJson, spanJson, .array childrenJson] ∧
      Span.ofJson? spanJson = some span ∧ childrenJson.mapM ofJson? = some children := by
  rw [ofJson?]
  split
  · rename_i symbolJson spanJson childrenJson hparts
    have hattach : (childrenJson.attach.mapM fun child => ofJson? child.1) =
        childrenJson.mapM ofJson? := by
      rw [List.mapM_subtype fun _ _ => rfl, List.unattach_attach]
    simp only [hattach, bind, Option.bind_eq_some_iff, Symbol.ofJson?_eq_some_iff, hparts]
    constructor
    · rintro ⟨_, rfl, _, hspan, _, hchildren, hall⟩
      cases hall
      exact ⟨spanJson, childrenJson, rfl, hspan, hchildren⟩
    · rintro ⟨_, _, hall, hspan, hchildren⟩
      cases hall
      exact ⟨symbol, rfl, span, hspan, children, hchildren, rfl⟩
  · rename_i hparts
    constructor
    · intro h
      cases h
    · rintro ⟨spanJson, childrenJson, hrecord, -⟩
      exact (hparts _ _ _ hrecord).elim

mutual

theorem ofJson?_toJson : (tree : Tree) → tree.InWords → ofJson? tree.toJson = some tree
  | ⟨symbol, span, children⟩, h => by
      refine ofJson?_eq_some_iff.mpr ⟨span.toJson, toJsonAll children, ?_, ?_, ?_⟩
      · exact Json.fields?_object [("symbol", symbol.toJson), ("span", span.toJson),
          ("children", .array (toJsonAll children))] (by simp)
      · exact Span.roundTrips.read_write span (h _ (mem_nodes_self _))
      · exact mapM_ofJson?_toJsonAll children fun node hnode => h node (by simp [nodes, hnode])

theorem mapM_ofJson?_toJsonAll : (trees : List Tree) →
    (∀ node ∈ nodesAll trees, node.span.InWords) →
    (toJsonAll trees).mapM ofJson? = some trees
  | [], _ => rfl
  | tree :: trees, h => by
      rw [toJsonAll, List.mapM_cons, ofJson?_toJson tree fun node hnode =>
        h node (by simp [nodesAll, hnode]), mapM_ofJson?_toJsonAll trees fun node hnode =>
        h node (by simp [nodesAll, hnode])]
      rfl

end

mutual

theorem inWords_of_ofJson? : (tree : Tree) → {json : Json} → ofJson? json = some tree →
    tree.InWords
  | ⟨symbol, span, children⟩, json, h => by
      obtain ⟨spanJson, childrenJson, -, hspan, hchildren⟩ := ofJson?_eq_some_iff.mp h
      intro node hnode
      rcases List.mem_cons.mp (by simpa [nodes] using hnode) with rfl | hnode
      · exact Span.roundTrips.fits_of_read spanJson span hspan
      · exact inWords_of_mapM_ofJson? children hchildren node hnode

theorem inWords_of_mapM_ofJson? : (trees : List Tree) → {items : List Json} →
    items.mapM ofJson? = some trees → ∀ node ∈ nodesAll trees, node.span.InWords
  | [], _, _ => by simp [nodesAll]
  | tree :: trees, items, h => by
      cases items with
      | nil => cases h
      | cons item items =>
          simp only [List.mapM_cons, bind, Option.bind_eq_some_iff] at h
          obtain ⟨first, hfirst, rest, hrest, hall⟩ := h
          cases hall
          intro node hnode
          rcases List.mem_append.mp (by simpa [nodesAll] using hnode) with hnode | hnode
          · exact inWords_of_ofJson? tree hfirst node hnode
          · exact inWords_of_mapM_ofJson? trees hrest node hnode

end

theorem roundTrips : RoundTrips InWords toJson ofJson? where
  read_write := ofJson?_toJson
  fits_of_read _ tree := inWords_of_ofJson? tree

end Tree

/-! ## All types -/

/--
Every value whose numbers are machine words is read back from its written form; whatever form a
value was read from, it is such a value, and its written form is one that stays.
-/
theorem written_forms_round_trip :
    RoundTrips (fun _ => True) Symbol.toJson Symbol.ofJson? ∧
    RoundTrips Span.InWords Span.toJson Span.ofJson? ∧
    RoundTrips Stats.InWords Stats.toJson Stats.ofJson? ∧
    RoundTrips (fun _ => True) Production.toJson Production.ofJson? ∧
    RoundTrips Tree.InWords Tree.toJson Tree.ofJson? ∧
    RoundTrips Limits.InWords Limits.toJson Limits.ofJson? ∧
    RoundTrips Violation.InWords Violation.toJson Violation.ofJson? ∧
    RoundTrips Diagnostic.InWords Diagnostic.toJson Diagnostic.ofJson? :=
  ⟨Symbol.roundTrips, Span.roundTrips, Stats.roundTrips, Production.roundTrips, Tree.roundTrips,
    Limits.roundTrips, Violation.roundTrips, Diagnostic.roundTrips⟩

def spelledTree : Json :=
  .array [.nat 4294967295, .array [.nat 0, .nat 1], .array [.object
    [("children", .array []), ("note", .null), ("span", .array [.nat 0, .nat 1]),
      ("symbol", .nat 1)]]]

theorem spelled_forms_round_trip :
    ∃ tree, Tree.ofJson? spelledTree = some tree ∧ tree.toJson ≠ spelledTree ∧
      Tree.ofJson? tree.toJson = some tree ∧
      Limits.ofJson? (.object []) = some .unbounded ∧
      Limits.ofJson? Limits.unbounded.toJson = some .unbounded ∧
      Violation.ofJson? (.object [("UnaryNonterminal", .null)]) = some .loneNonterminal ∧
      Violation.ofJson? Violation.loneNonterminal.toJson = some .loneNonterminal := by
  obtain ⟨-, -, -, -, htree, hlimits, hviolation, -⟩ := written_forms_round_trip
  have hread : Tree.ofJson? spelledTree = some
      ⟨⟨4294967295, by decide⟩, ⟨0, 1⟩, [⟨⟨1, by decide⟩, ⟨0, 1⟩, []⟩]⟩ := by
    decide +kernel
  refine ⟨_, hread, nofun, htree.read_write _ (htree.fits_of_read _ _ hread), rfl,
    hlimits.read_write _ (hlimits.fits_of_read (.object []) _ rfl), rfl,
    hviolation.read_write _ trivial⟩

end ChartParsing
