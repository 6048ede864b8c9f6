import ChartParsing.Forest.Extraction

/-!
# The memo of an extractor does not show

An extractor answers from a memo where it can.  The memo outlives extractions,
also those that fail halfway, and it is emptied when the limits change.  Every
entry is what reading without a memo gives under the limits in force, and this
is kept by each reading of a part, so that no answer depends on the extractions
before it.
-/

namespace ChartParsing

namespace Forest

/-- Every forest in the memo is the one that reading without a memo gives. -/
def SoundMemo (evidence : Evidence) (cap : Option Nat) (memo : Memo) : Prop :=
  ∀ root forest, memo[root]? = some forest → read evidence cap root = .ok forest

/-- From any sound memo the reading gives this result, and leaves a sound memo. -/
def Answers {α : Type} (evidence : Evidence) (cap : Option Nat) (reading : Reading α)
    (result : Except ExtractionError α) : Prop :=
  ∀ memo, SoundMemo evidence cap memo →
    ∃ memo', reading.run.run memo = (result, memo') ∧ SoundMemo evidence cap memo'

section Answers

variable {α β : Type} {evidence : Evidence} {cap : Option Nat}

theorem soundMemo_empty (evidence : Evidence) (cap : Option Nat) :
    SoundMemo evidence cap ∅ := by
  intro root forest h
  simp at h

theorem SoundMemo.insert {memo : Memo} {root : Constituent} {forest : Forest}
    (hmemo : SoundMemo evidence cap memo) (hread : read evidence cap root = .ok forest) :
    SoundMemo evidence cap (memo.insert root forest) := by
  intro other found hfound
  rw [Std.TreeMap.getElem?_insert] at hfound
  split at hfound
  · rename_i heq
    rw [Std.LawfulEqCmp.compare_eq_iff_eq] at heq
    subst heq
    cases hfound
    exact hread
  · exact hmemo other found hfound

theorem Answers.pure (value : α) :
    Answers evidence cap (Pure.pure value) (Pure.pure value) :=
  fun memo hmemo => ⟨memo, rfl, hmemo⟩

theorem Answers.throw (error : ExtractionError) :
    Answers (α := α) evidence cap (MonadExcept.throw error) (MonadExcept.throw error) :=
  fun memo hmemo => ⟨memo, rfl, hmemo⟩

theorem Answers.bind {reading : Reading α} {result : Except ExtractionError α}
    {next : α → Reading β} {nextResult : α → Except ExtractionError β}
    (hfirst : Answers evidence cap reading result)
    (hnext : ∀ value, Answers evidence cap (next value) (nextResult value)) :
    Answers evidence cap (reading >>= next) (result >>= nextResult) := by
  intro memo hmemo
  obtain ⟨memo', hrun, hmemo'⟩ := hfirst memo hmemo
  cases result with
  | error error =>
      refine ⟨memo', ?_, hmemo'⟩
      rw [ExceptT.run_bind, StateT.run_bind, hrun]
      rfl
  | ok value =>
      obtain ⟨memo'', hrun', hmemo''⟩ := hnext value memo' hmemo'
      refine ⟨memo'', ?_, hmemo''⟩
      rw [ExceptT.run_bind, StateT.run_bind, hrun]
      exact hrun'

end Answers

/-! ## Reading a node and its parts -/

section Parts

variable {evidence : Evidence} {cap : Option Nat} {root : Constituent}
  {part : (part : Constituent) → part.span.width < root.span.width → Reading Forest}
  {plain : (part : Constituent) → part.span.width < root.span.width →
    Except ExtractionError Forest}

theorem ofToken_answers (witness : Witness) :
    Answers evidence cap (ofToken cap root witness) (ofToken cap root witness) := by
  unfold ofToken
  split
  · exact .pure _
  · cases witness with
    | split position left right => exact .throw _
    | leaf terminal =>
        dsimp only
        cases Tree.leaf terminal root.span.start with
        | error fault => exact .throw _
        | ok leaf => exact .pure _

theorem ofSplits_answers
    (hparts : ∀ constituent hlt, Answers evidence cap (part constituent hlt)
      (plain constituent hlt))
    (witnesses : List Witness) (forest : Forest) :
    Answers evidence cap (ofSplits cap root part witnesses forest)
      (ofSplits cap root plain witnesses forest) := by
  induction witnesses generalizing forest with
  | nil => exact .pure forest
  | cons witness witnesses ih =>
      unfold ofSplits
      split
      · exact .pure _
      · split
        · exact .throw _
        · exact .throw _
        · refine .bind (hparts _ _) fun lefts => ?_
          exact .bind (hparts _ _) fun rights => ih _

theorem ofParts_answers
    (hparts : ∀ constituent hlt, Answers evidence cap (part constituent hlt)
      (plain constituent hlt)) :
    Answers evidence cap (ofParts evidence cap root part)
      (ofParts evidence cap root plain) := by
  unfold ofParts
  split
  · exact .throw _
  · exact .throw _
  · split
    · exact .throw _
    · exact ofToken_answers _
    · exact ofSplits_answers hparts _ _

end Parts

theorem run_readOnce (evidence : Evidence) (cap : Option Nat) (root : Constituent)
    (memo : Memo) :
    (readOnce evidence cap root).run.run memo =
      match memo[root]? with
      | some forest => (.ok forest, memo)
      | none =>
          match (ofParts evidence cap root
            fun part _ => readOnce evidence cap part : Reading Forest).run.run memo with
          | (.ok forest, memo') => (.ok forest, memo'.insert root forest)
          | (.error error, memo') => (.error error, memo') := by
  rw [readOnce]
  change StateT.run (ExceptT.run (match memo[root]? with
    | some forest => (pure forest : Reading Forest)
    | none => _)) memo = _
  cases memo[root]? with
  | some forest => rfl
  | none =>
      rw [ExceptT.run_bind, StateT.run_bind]
      rcases (ofParts evidence cap root
        fun part _ => readOnce evidence cap part : Reading Forest).run.run memo with
        ⟨error | forest, memo'⟩
      · rfl
      · rfl

theorem readOnce_answers (evidence : Evidence) (cap : Option Nat) (root : Constituent) :
    Answers evidence cap (readOnce evidence cap root) (read evidence cap root) := by
  have hnode : Answers evidence cap
      (ofParts evidence cap root fun part _ => readOnce evidence cap part)
      (ofParts evidence cap root fun part _ => read evidence cap part) :=
    ofParts_answers fun part _ => readOnce_answers evidence cap part
  rw [← read] at hnode
  intro memo hmemo
  rw [run_readOnce]
  cases hfound : memo[root]? with
  | some forest => exact ⟨memo, by rw [hmemo root forest hfound], hmemo⟩
  | none =>
      obtain ⟨memo', hrun, hmemo'⟩ := hnode memo hmemo
      rw [hrun]
      cases hread : read evidence cap root with
      | error error => exact ⟨memo', rfl, hmemo'⟩
      | ok forest => exact ⟨memo'.insert root forest, rfl, hmemo'.insert hread⟩
termination_by root.span.width

end Forest

namespace Extractor

def Sound (extractor : Extractor) : Prop :=
  Forest.SoundMemo extractor.evidence extractor.limits.cap extractor.memo

theorem ofEvidence_sound (evidence : Evidence) : (ofEvidence evidence).Sound :=
  Forest.soundMemo_empty _ _

theorem withLimits_sound (extractor : Extractor) (limits : Limits) :
    (extractor.withLimits limits).Sound :=
  Forest.soundMemo_empty _ _

theorem extract_of_sound {extractor : Extractor} (hsound : extractor.Sound)
    (root : Constituent) :
    ∃ memo, extractor.extract root =
        (Forest.read extractor.evidence extractor.limits.cap root, { extractor with memo }) ∧
      Sound { extractor with memo } := by
  obtain ⟨memo, hrun, hmemo⟩ := Forest.ofParts_answers
    (fun part (_ : part.span.width < root.span.width) =>
      Forest.readOnce_answers extractor.evidence extractor.limits.cap part)
    extractor.memo hsound
  refine ⟨memo, ?_, hmemo⟩
  rw [Forest.read]
  simp only [extract, hrun]

theorem extract_withLimits (evidence : Evidence) (limits : Limits) (root : Constituent) :
    (((ofEvidence evidence).withLimits limits).extract root).1 =
      Forest.read evidence limits.cap root := by
  obtain ⟨memo, hextract, -⟩ :=
    extract_of_sound (withLimits_sound (ofEvidence evidence) limits) root
  rw [hextract]
  rfl

/-! ## Any sequence of requests -/

inductive Request where
  | restrict (limits : Limits)
  | extract (root : Constituent)
  deriving DecidableEq, Repr

def serve : Extractor → List Request → List (Except ExtractionError Forest)
  | _, [] => []
  | extractor, .restrict limits :: requests => (extractor.withLimits limits).serve requests
  | extractor, .extract root :: requests =>
      let (result, extractor) := extractor.extract root
      result :: extractor.serve requests

/-- The results when every extraction gets an extractor of its own, with the limits in force. -/
def serveAfresh (evidence : Evidence) :
    Limits → List Request → List (Except ExtractionError Forest)
  | _, [] => []
  | _, .restrict limits :: requests => serveAfresh evidence limits requests
  | limits, .extract root :: requests =>
      (((ofEvidence evidence).withLimits limits).extract root).1 ::
        serveAfresh evidence limits requests

theorem serve_of_sound {extractor : Extractor} (hsound : extractor.Sound)
    (requests : List Request) :
    extractor.serve requests =
      serveAfresh extractor.evidence extractor.limits requests := by
  induction requests generalizing extractor with
  | nil => rfl
  | cons request requests ih =>
      cases request with
      | restrict limits => exact ih (withLimits_sound extractor limits)
      | extract root =>
          obtain ⟨memo, hextract, hnext⟩ := extract_of_sound hsound root
          simp only [serve, serveAfresh, hextract, extract_withLimits, ih hnext]

/-- Extractions on one extractor give what they give on extractors that have read nothing. -/
theorem serve_eq_serveAfresh (evidence : Evidence) (requests : List Request) :
    (ofEvidence evidence).serve requests = serveAfresh evidence .unbounded requests :=
  serve_of_sound (ofEvidence_sound evidence) requests

/-! ## Any extractor there can be -/

def after : Extractor → List Request → Extractor
  | extractor, [] => extractor
  | extractor, .restrict limits :: requests => (extractor.withLimits limits).after requests
  | extractor, .extract root :: requests => (extractor.extract root).2.after requests

theorem after_of_sound {extractor : Extractor} (hsound : extractor.Sound)
    (requests : List Request) :
    (extractor.after requests).Sound ∧
      (extractor.after requests).evidence = extractor.evidence := by
  induction requests generalizing extractor with
  | nil => exact ⟨hsound, rfl⟩
  | cons request requests ih =>
      cases request with
      | restrict limits => exact ih (withLimits_sound extractor limits)
      | extract root =>
          obtain ⟨memo, hextract, hnext⟩ := extract_of_sound hsound root
          rw [after, hextract]
          exact ih hnext

theorem extract_after (evidence : Evidence) (requests : List Request) (root : Constituent) :
    (((ofEvidence evidence).after requests).extract root).1 =
      Forest.read evidence ((ofEvidence evidence).after requests).limits.cap root := by
  obtain ⟨hsound, hevidence⟩ := after_of_sound (ofEvidence_sound evidence) requests
  obtain ⟨memo, hextract, -⟩ := extract_of_sound hsound root
  rw [hextract, hevidence]
  rfl

end Extractor

end ChartParsing
