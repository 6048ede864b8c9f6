import ChartParsing.Proofs.Forest.Limits
import Mathlib.Logic.Relation

/-!
# Errors are found at nodes that can be reached

Evidence can be filled by hand, with parts that have no witness, with witnesses
that do not fit their span, and with splits that do not divide it.  Reading
goes from a node to its parts, which are narrower, and so ends on any evidence.
An error says what is wrong with one of the nodes that can be reached; and
without limits all of these are read, so that reading succeeds exactly if
nothing is wrong with any of them.
-/

namespace ChartParsing

open Outcome

namespace Evidence

/-- The second node is a part of the first by a split strictly inside its span. -/
inductive HasPart (evidence : Evidence) : Constituent → Constituent → Prop
  | left {whole : Constituent} {witnesses : List Witness} {position : Nat} {left right : Symbol}
      (hget : evidence.get? whole = some witnesses)
      (hmem : .split position left right ∈ witnesses)
      (hstart : whole.span.start < position) (hstop : position < whole.span.stop) :
      HasPart evidence whole ⟨left, ⟨whole.span.start, position⟩⟩
  | right {whole : Constituent} {witnesses : List Witness} {position : Nat} {left right : Symbol}
      (hget : evidence.get? whole = some witnesses)
      (hmem : .split position left right ∈ witnesses)
      (hstart : whole.span.start < position) (hstop : position < whole.span.stop) :
      HasPart evidence whole ⟨right, ⟨position, whole.span.stop⟩⟩

def Reaches (evidence : Evidence) : Constituent → Constituent → Prop :=
  Relation.ReflTransGen evidence.HasPart

/--
The node has a witness and, over a token, its first witness is a leaf; over a longer span all its
witnesses are splits strictly inside.
-/
def Supports (evidence : Evidence) (node : Constituent) : Prop :=
  ∃ first rest, evidence.get? node = some (first :: rest) ∧
    (node.span.stop = node.span.start + 1 → ∃ terminal, first = .leaf terminal) ∧
    (node.span.start + 1 < node.span.stop → ∀ witness ∈ first :: rest,
      ∃ position left right, witness = .split position left right ∧
        node.span.start < position ∧ position < node.span.stop)

/-- What an error says is so, at a node that can be reached from the root. -/
def Explains (evidence : Evidence) (root : Constituent) : ExtractionError → Prop
  | .missing node => evidence.Reaches root node ∧ (evidence.get? node).getD [] = []
  | .inconsistent node =>
      evidence.Reaches root node ∧ ∃ first rest, evidence.get? node = some (first :: rest) ∧
        ((node.span.stop = node.span.start + 1 ∧
            ∃ position left right, first = .split position left right) ∨
          (node.span.start + 1 < node.span.stop ∧ ∃ terminal, .leaf terminal ∈ first :: rest))
  | .fault _ =>
      ∃ node witnesses position left right, evidence.Reaches root node ∧
        node.span.start + 1 < node.span.stop ∧ evidence.get? node = some witnesses ∧
        .split position left right ∈ witnesses ∧
        ¬ (node.span.start < position ∧ position < node.span.stop)

section Parts

variable {evidence : Evidence} {root node part whole : Constituent}

theorem HasPart.width_lt (h : evidence.HasPart whole part) :
    part.span.width < whole.span.width := by
  cases h with
  | left hget hmem hstart hstop =>
      simp only [Span.width]
      omega
  | right hget hmem hstart hstop =>
      simp only [Span.width]
      omega

theorem HasPart.inside (h : evidence.HasPart whole part) :
    part.span.start < part.span.stop ∧ part.span.stop ≤ whole.span.stop := by
  cases h with
  | left hget hmem hstart hstop => exact ⟨hstart, Nat.le_of_lt hstop⟩
  | right hget hmem hstart hstop => exact ⟨hstop, Nat.le_refl _⟩

theorem Reaches.inside (h : evidence.Reaches root node)
    (hstart : root.span.start < root.span.stop) :
    node.span.start < node.span.stop ∧ node.span.stop ≤ root.span.stop := by
  induction h with
  | refl => exact ⟨hstart, Nat.le_refl _⟩
  | tail _ hpart ih => exact ⟨hpart.inside.1, Nat.le_trans hpart.inside.2 ih.2⟩

theorem wellFounded_hasPart (evidence : Evidence) :
    WellFounded fun part whole => evidence.HasPart whole part :=
  Subrelation.wf HasPart.width_lt
    (measure fun constituent : Constituent => constituent.span.width).wf

theorem hasPart_of_parts {witnesses : List Witness} {witness : Witness}
    {left right : Constituent} (hget : evidence.get? whole = some witnesses)
    (hmem : witness ∈ witnesses) (hparts : witness.parts whole.span = .ok (some (left, right))) :
    evidence.HasPart whole left ∧ evidence.HasPart whole right := by
  rcases left with ⟨left, leftSpan⟩
  rcases right with ⟨right, rightSpan⟩
  obtain ⟨position, rfl, hstart, hstop, rfl, rfl⟩ := Witness.split_of_parts hparts
  exact ⟨.left hget hmem hstart hstop, .right hget hmem hstart hstop⟩

theorem Explains.of_part {error : ExtractionError} (hpart : evidence.HasPart root part)
    (h : evidence.Explains part error) : evidence.Explains root error := by
  cases error with
  | missing node => exact ⟨h.1.head hpart, h.2⟩
  | inconsistent node => exact ⟨h.1.head hpart, h.2⟩
  | fault cause =>
      obtain ⟨node, witnesses, position, left, right, hreaches, h⟩ := h
      exact ⟨node, witnesses, position, left, right, hreaches.head hpart, h⟩

theorem not_explains (h : ∀ node, evidence.Reaches root node → evidence.Supports node)
    (error : ExtractionError) : ¬ evidence.Explains root error := by
  intro hexplains
  cases error with
  | missing node =>
      obtain ⟨hreaches, hnone⟩ := hexplains
      obtain ⟨first, rest, hget, -⟩ := h node hreaches
      rw [hget] at hnone
      cases hnone
  | inconsistent node =>
      obtain ⟨hreaches, first, rest, hget, hwrong⟩ := hexplains
      obtain ⟨first', rest', hget', htoken, hlong⟩ := h node hreaches
      cases hget.symm.trans hget'
      rcases hwrong with ⟨hstop, position, left, right, rfl⟩ | ⟨hstop, terminal, hmem⟩
      · obtain ⟨terminal, hleaf⟩ := htoken hstop
        cases hleaf
      · obtain ⟨position, left, right, hsplit, -⟩ := hlong hstop _ hmem
        cases hsplit
  | fault cause =>
      obtain ⟨node, witnesses, position, left, right, hreaches, hstop, hget, hmem, houtside⟩ :=
        hexplains
      obtain ⟨first, rest, hget', -, hlong⟩ := h node hreaches
      cases hget.symm.trans hget'
      obtain ⟨_, _, _, hsplit, hinside⟩ := hlong hstop _ hmem
      cases hsplit
      exact houtside hinside

end Parts

end Evidence

namespace Forest

/-! ## What is asked for -/

section Asking

variable {m : Type → Type} [Monad m] [MonadExcept ExtractionError m] {evidence : Evidence}
  {cap : Option Nat} {root : Constituent}
  {part other : (part : Constituent) → part.span.width < root.span.width → m Forest}

theorem ofSplits_congr {all witnesses : List Witness} (hget : evidence.get? root = some all)
    (h : ∀ constituent hlt, evidence.HasPart root constituent →
      part constituent hlt = other constituent hlt)
    (hmem : ∀ witness ∈ witnesses, witness ∈ all) (forest : Forest) :
    ofSplits cap root part witnesses forest = ofSplits cap root other witnesses forest := by
  induction witnesses generalizing forest with
  | nil => rfl
  | cons witness witnesses ih =>
      have hrest := ih fun other hother => hmem other (by simp [hother])
      unfold ofSplits
      split
      · rfl
      · split
        · rfl
        · rfl
        · rename_i left right hparts
          obtain ⟨hleft, hright⟩ := Evidence.hasPart_of_parts hget (hmem witness (by simp)) hparts
          simp only [h _ _ hleft, h _ _ hright, hrest]

theorem ofParts_congr
    (h : ∀ constituent hlt, evidence.HasPart root constituent →
      part constituent hlt = other constituent hlt) :
    ofParts evidence cap root part = ofParts evidence cap root other := by
  unfold ofParts
  split
  · rfl
  · rfl
  · rename_i witness witnesses hget
    split
    · rfl
    · rfl
    · exact ofSplits_congr hget h (fun _ hmem => hmem) ∅

end Asking

section Reading

variable {evidence : Evidence} {cap : Option Nat} {root : Constituent}
  {part : (part : Constituent) → part.span.width < root.span.width →
    Except ExtractionError Forest}

/-! ## Errors -/

theorem ofToken_meets {first : Witness} {rest : List Witness}
    (hget : evidence.get? root = some (first :: rest))
    (hstop : root.span.stop = root.span.start + 1) (hword : root.span.stop < Word.limit) :
    Meets (evidence.Explains root) (fun _ => True) (ofToken cap root first) := by
  unfold ofToken
  split
  · exact .pure trivial
  · cases first with
    | split position left right =>
        exact ⟨.refl, _, rest, hget, .inl ⟨hstop, position, left, right, rfl⟩⟩
    | leaf terminal =>
        have hleaf := Tree.leaf_eq terminal (hstop ▸ hword)
        simp only [hleaf]
        exact .pure trivial

theorem ofSplits_meets {first : Witness} {rest witnesses : List Witness}
    (hget : evidence.get? root = some (first :: rest))
    (hlong : root.span.start + 1 < root.span.stop)
    (hparts : ∀ constituent hlt, evidence.HasPart root constituent →
      Meets (evidence.Explains constituent) (fun _ => True) (part constituent hlt))
    (hmem : ∀ witness ∈ witnesses, witness ∈ first :: rest) (forest : Forest) :
    Meets (evidence.Explains root) (fun _ => True)
      (ofSplits cap root part witnesses forest) := by
  induction witnesses generalizing forest with
  | nil => exact .pure trivial
  | cons witness witnesses ih =>
      have hwitness : witness ∈ first :: rest := hmem witness (by simp)
      have hrest := ih fun other hother => hmem other (by simp [hother])
      have hpart : ∀ constituent hlt, evidence.HasPart root constituent →
          Meets (evidence.Explains root) (fun _ => True) (part constituent hlt) :=
        fun constituent hlt h => (hparts constituent hlt h).mono_error fun _ => .of_part h
      cases hfull : forest.isFull cap with
      | true =>
          rw [ofSplits_cons_of_full hfull]
          exact trivial
      | false =>
          cases witness with
          | leaf terminal =>
              rw [ofSplits_cons_of_leaf hfull]
              exact ⟨.refl, first, rest, hget, .inr ⟨hlong, terminal, hwitness⟩⟩
          | split position left right =>
              by_cases hinside : root.span.start < position ∧ position < root.span.stop
              · have hsplit := @Witness.parts_split root.span position left right
                  hinside.1 hinside.2
                have hboth := Evidence.hasPart_of_parts hget hwitness hsplit
                rw [ofSplits_cons_of_parts hfull hsplit]
                apply (hpart _ _ hboth.1).bind
                intro lefts _
                apply (hpart _ _ hboth.2).bind
                intro rights _
                exact hrest _
              · rw [ofSplits_cons_of_fault hfull (Witness.parts_split_outside hinside)]
                exact ⟨root, _, position, left, right, .refl, hlong, hget, hwitness, hinside⟩

theorem read_meets (evidence : Evidence) (cap : Option Nat) {root : Constituent}
    (hstart : root.span.start < root.span.stop) (hword : root.span.stop < Word.limit) :
    Meets (evidence.Explains root) (fun _ => True) (read evidence cap root) := by
  rw [read]
  have hisToken := Span.isToken_eq (Nat.le_of_lt hstart)
  cases hget : evidence.get? root with
  | none =>
      rw [ofParts, hget]
      exact ⟨.refl, by rw [hget]; rfl⟩
  | some witnesses =>
      cases witnesses with
      | nil =>
          rw [ofParts, hget]
          exact ⟨.refl, by rw [hget]; rfl⟩
      | cons first rest =>
          by_cases hstop : root.span.stop = root.span.start + 1
          · rw [ofParts_of_token hget (hisToken.trans (by rw [decide_eq_true hstop]))]
            exact ofToken_meets hget hstop hword
          · rw [ofParts_of_long hget (hisToken.trans (by rw [decide_eq_false hstop]))]
            refine ofSplits_meets hget (by omega) ?_ (fun _ hmem => hmem) ∅
            intro constituent hlt hpart
            exact read_meets evidence cap hpart.inside.1
              (Nat.lt_of_le_of_lt hpart.inside.2 hword)
termination_by root.span.width

/-! ## Success without limits -/

theorem parts_of_ofSplits {witnesses : List Witness} {start final : Forest}
    (h : ofSplits none root part witnesses start = .ok final) :
    ∀ witness ∈ witnesses, ∃ left right,
      ∃ hparts : witness.parts root.span = .ok (some (left, right)), ∃ lefts rights,
        part left (Witness.width_lt_of_parts hparts).1 = .ok lefts ∧
        part right (Witness.width_lt_of_parts hparts).2 = .ok rights := by
  induction witnesses generalizing start with
  | nil => nofun
  | cons witness witnesses ih =>
      obtain ⟨left, right, hparts, lefts, rights, hlefts, hrights, h⟩ :=
        exists_parts_of_ofSplits (isFull_none start) h
      intro other hother
      cases hother with
      | head => exact ⟨left, right, hparts, lefts, rights, hlefts, hrights⟩
      | tail _ hrest => exact ih h other hrest

theorem supports_of_read {forest : Forest} (hstart : root.span.start < root.span.stop)
    (h : read evidence none root = .ok forest) :
    evidence.Supports root ∧
      ∀ constituent, evidence.HasPart root constituent →
        ∃ found, read evidence none constituent = .ok found := by
  have hisToken := Span.isToken_eq (Nat.le_of_lt hstart)
  rw [read] at h
  obtain ⟨first, rest, hget, ⟨htoken, h⟩ | ⟨hlong, h⟩⟩ := exists_witnesses_of_ofParts h
  · have hstop : root.span.stop = root.span.start + 1 := by simpa [hisToken] using htoken
    constructor
    · refine ⟨first, rest, hget, fun _ => ?_, fun hlt => absurd hlt (by omega)⟩
      cases first with
      | leaf terminal => exact ⟨terminal, rfl⟩
      | split position left right => cases h
    · -- There is no position strictly inside the span of a token.
      intro constituent hpart
      have hwidth := hpart.width_lt
      have hinside := hpart.inside.1
      simp only [Span.width] at hwidth
      omega
  · have hread := parts_of_ofSplits h
    constructor
    · have hstop : root.span.stop ≠ root.span.start + 1 := by simpa [hisToken] using hlong
      refine ⟨first, rest, hget, fun heq => absurd heq hstop, fun _ witness hmem => ?_⟩
      obtain ⟨left, right, hparts, -⟩ := hread witness hmem
      obtain ⟨position, heq, hleft, hright, -⟩ := Witness.split_of_parts hparts
      exact ⟨position, left.symbol, right.symbol, heq, hleft, hright⟩
    · intro constituent hpart
      cases hpart with
      | left hget' hmem hleft hright =>
          cases hget.symm.trans hget'
          obtain ⟨_, _, hparts, lefts, _, hlefts, -⟩ := hread _ hmem
          cases (Witness.parts_split hleft hright).symm.trans hparts
          exact ⟨lefts, hlefts⟩
      | right hget' hmem hleft hright =>
          cases hget.symm.trans hget'
          obtain ⟨_, _, hparts, _, rights, -, hrights⟩ := hread _ hmem
          cases (Witness.parts_split hleft hright).symm.trans hparts
          exact ⟨rights, hrights⟩

theorem supports_of_reaches {forest : Forest} {node : Constituent}
    (hstart : root.span.start < root.span.stop) (h : read evidence none root = .ok forest)
    (hreaches : evidence.Reaches root node) : evidence.Supports node := by
  have hnode : ∃ found, read evidence none node = .ok found := by
    induction hreaches with
    | refl => exact ⟨forest, h⟩
    | tail hreaches hpart ih =>
        obtain ⟨found, hfound⟩ := ih
        exact (supports_of_read (Evidence.Reaches.inside hreaches hstart).1 hfound).2 _ hpart
  obtain ⟨found, hfound⟩ := hnode
  exact (supports_of_read (Evidence.Reaches.inside hreaches hstart).1 hfound).1

end Reading

end Forest

/-! ## Extractions -/

/--
Whatever was asked of an extractor before: a node asks for its parts only, and parts of parts come
to an end; without limits there are trees exactly if every node that can be reached has the
witnesses that its span asks for; and what an error says is so at such a node.
-/
theorem Extractor.extract_explained (evidence : Evidence) (requests : List Request)
    {root : Constituent} (hstart : root.span.start < root.span.stop)
    (hword : root.span.stop < Word.limit) :
    (WellFounded (fun part whole => evidence.HasPart whole part) ∧
        ∀ cap node (part other : (part : Constituent) → part.span.width < node.span.width →
            Forest.Reading Forest),
          (∀ constituent hlt, evidence.HasPart node constituent →
            part constituent hlt = other constituent hlt) →
          Forest.ofParts evidence cap node part = Forest.ofParts evidence cap node other) ∧
      (((ofEvidence evidence).after requests).limits = .unbounded →
        ((∃ forest, (((ofEvidence evidence).after requests).extract root).1 = .ok forest) ↔
          ∀ node, evidence.Reaches root node → evidence.Supports node)) ∧
      ∀ error, (((ofEvidence evidence).after requests).extract root).1 = .error error →
        evidence.Explains root error := by
  rw [extract_after]
  have hmeets := Forest.read_meets evidence
    ((ofEvidence evidence).after requests).limits.cap hstart hword
  refine ⟨⟨Evidence.wellFounded_hasPart evidence, ?_⟩, ?_, ?_⟩
  · intro cap node part other h
    exact Forest.ofParts_congr h
  · intro hlimits
    rw [hlimits] at hmeets ⊢
    constructor
    · rintro ⟨forest, hread⟩ node hreaches
      exact Forest.supports_of_reaches hstart hread hreaches
    · intro hsupports
      exact (hmeets.mono_error (Evidence.not_explains hsupports)).exists_ok
  · intro error herror
    rw [herror] at hmeets
    exact hmeets

theorem Extractor.extract_threefold_explained :
    (∃ forest, (((ofEvidence .threefold).after []).extract ⟨⟨1, by decide⟩, ⟨0, 3⟩⟩).1 =
        .ok forest) ∧
      (∀ node, Evidence.threefold.Reaches ⟨⟨1, by decide⟩, ⟨0, 3⟩⟩ node →
        Evidence.threefold.Supports node) ∧
      Evidence.threefold.Explains ⟨⟨2, by decide⟩, ⟨0, 3⟩⟩
        (.missing ⟨⟨2, by decide⟩, ⟨0, 3⟩⟩) := by
  have hcount : (((ofEvidence .threefold).after []).extract
      ⟨⟨1, by decide⟩, ⟨0, 3⟩⟩).1.toOption.map (fun forest => forest.trees.length) = some 2 := by
    decide +kernel
  have hnone : Evidence.threefold.get? ⟨⟨2, by decide⟩, ⟨0, 3⟩⟩ = none := by
    decide +kernel
  have hmissing : (((ofEvidence .threefold).after []).extract ⟨⟨2, by decide⟩, ⟨0, 3⟩⟩).1 =
      .error (.missing ⟨⟨2, by decide⟩, ⟨0, 3⟩⟩) := by
    rw [extract_after, Forest.read, Forest.ofParts, hnone]
    rfl
  obtain ⟨-, hiff, -⟩ :=
    @extract_explained .threefold [] ⟨⟨1, by decide⟩, ⟨0, 3⟩⟩ (by decide) (by decide)
  obtain ⟨-, -, hexplains⟩ :=
    @extract_explained .threefold [] ⟨⟨2, by decide⟩, ⟨0, 3⟩⟩ (by decide) (by decide)
  cases hforest : (((ofEvidence .threefold).after []).extract ⟨⟨1, by decide⟩, ⟨0, 3⟩⟩).1 with
  | error error =>
      rw [hforest] at hcount
      cases hcount
  | ok forest => exact ⟨⟨forest, rfl⟩, (hiff rfl).mp ⟨forest, hforest⟩, hexplains _ hmissing⟩

end ChartParsing
