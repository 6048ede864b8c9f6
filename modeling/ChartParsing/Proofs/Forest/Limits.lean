import ChartParsing.Proofs.Forest.Memo
import ChartParsing.Proofs.Forest.Reading

/-!
# Limits cut forests to prefixes

A cap on the number of trees applies to every node, and yet the trees of the
root are the first trees of the unlimited forest: the first `k` trees over two
parts need no more than the first `k` trees of either part.  The flag says
exactly whether trees are missing, because a witness that can be read stands
for at least one tree.
-/

namespace ChartParsing

namespace Forest

/-- The first trees of a forest that has not been cut before. -/
def cut (forest : Forest) (cap : Nat) : Forest :=
  ⟨forest.trees.take cap, decide (cap < forest.trees.length)⟩

theorem cut_empty (cap : Nat) : (∅ : Forest).cut cap = ∅ := by
  simp [cut, EmptyCollection.emptyCollection, empty]

structure Whole (forest : Forest) : Prop where
  truncated_eq : forest.truncated = false
  trees_ne_nil : forest.trees ≠ []

/-! ## Trees over two parts -/

@[simp] theorem product_nil (root : Constituent) (rights : List Tree) :
    product root [] rights = [] := rfl

@[simp] theorem product_cons (root : Constituent) (left : Tree) (lefts rights : List Tree) :
    product root (left :: lefts) rights =
      rights.map (Tree.branch root left) ++ product root lefts rights := rfl

@[simp] theorem length_product (root : Constituent) (lefts rights : List Tree) :
    (product root lefts rights).length = lefts.length * rights.length := by
  induction lefts with
  | nil => simp
  | cons left lefts ih =>
      simp only [product_cons, List.length_append, List.length_map, List.length_cons, ih]
      rw [Nat.succ_mul, Nat.add_comm]

theorem product_nil_right (root : Constituent) (lefts : List Tree) :
    product root lefts [] = [] :=
  List.eq_nil_of_length_eq_zero (by simp)

theorem take_product (root : Constituent) {room leftCap rightCap : Nat}
    (lefts rights : List Tree) (hleft : room ≤ leftCap) (hright : room ≤ rightCap) :
    (product root (lefts.take leftCap) (rights.take rightCap)).take room =
      (product root lefts rights).take room := by
  induction lefts generalizing room leftCap with
  | nil => simp
  | cons left lefts ih =>
      cases leftCap with
      | zero =>
          have hroom : room = 0 := by omega
          simp [hroom]
      | succ leftCap =>
          have hrow : (rights.take rightCap).take room = rights.take room := by
            rw [List.take_take, Nat.min_eq_left hright]
          have hrest : room - (rights.take rightCap).length = room - rights.length := by
            rw [List.length_take]
            omega
          rw [List.take_succ_cons, product_cons, product_cons, List.take_append,
            List.take_append, ← List.map_take, ← List.map_take, hrow, List.length_map,
            List.length_map, hrest]
          congr 1
          -- A row that is not empty leaves less to take, which the smaller cap still covers.
          cases rights with
          | nil =>
              rw [List.take_nil, product_nil_right, product_nil_right]
          | cons right rights =>
              apply ih
              · simp only [List.length_cons]
                omega
              · omega

/-- The trees of a cut product are missing exactly if trees of the whole product are. -/
theorem cut_product_flag {cap count lefts rights : Nat} (hroom : count < cap)
    (hlefts : 0 < lefts) (hrights : 0 < rights) :
    (cap < lefts ∨ cap < rights ∨ cap - count < min cap lefts * min cap rights) ↔
      cap < count + lefts * rights := by
  have hleft : lefts ≤ lefts * rights := Nat.le_mul_of_pos_right lefts hrights
  have hright : rights ≤ lefts * rights := Nat.le_mul_of_pos_left rights hlefts
  by_cases hlarge : cap < lefts ∨ cap < rights
  · constructor
    · intro _
      omega
    · intro _
      omega
  · rw [Nat.min_eq_right (by omega : lefts ≤ cap), Nat.min_eq_right (by omega : rights ≤ cap)]
    omega

theorem grow_cut {cap : Nat} (root : Constituent) {forest lefts rights : Forest}
    (hroom : forest.trees.length < cap) (hlefts : lefts.trees ≠ [])
    (hrights : rights.trees ≠ []) :
    (forest.cut cap).grow (some cap) root (lefts.cut cap) (rights.cut cap) =
      (forest.grow none root lefts rights).cut cap := by
  have hall : forest.trees.take cap = forest.trees := List.take_of_length_le (by omega)
  have htrees : (product root (lefts.trees.take cap) (rights.trees.take cap)).take
        (cap - forest.trees.length) =
      (product root lefts.trees rights.trees).take (cap - forest.trees.length) :=
    take_product root _ _ (by omega) (by omega)
  have hflag := cut_product_flag hroom (List.length_pos_iff.mpr hlefts)
    (List.length_pos_iff.mpr hrights)
  simp only [grow, cut, productUpTo_eq_take, hall, htrees, List.length_take,
    List.length_append, length_product, List.take_append]
  congr 1
  rw [Bool.eq_iff_iff]
  simp only [Bool.or_eq_true, decide_eq_true_eq]
  rw [← hflag]
  omega

/-! ## One node -/

theorem ofToken_cut {root : Constituent} {witness : Witness} {forest : Forest}
    (h : ofToken (m := Except ExtractionError) none root witness = .ok forest) (cap : Nat) :
    forest.Whole ∧
      ofToken (m := Except ExtractionError) (some cap) root witness = .ok (forest.cut cap) := by
  cases witness with
  | split position left right =>
      rw [ofToken, if_neg (by simp)] at h
      cases h
  | leaf terminal =>
      cases hleaf : Tree.leaf terminal root.span.start with
      | error fault =>
          simp [ofToken, hleaf] at h
      | ok leaf =>
          simp only [ofToken, hleaf, reduceCtorEq, if_false] at h
          cases h
          refine ⟨⟨rfl, by simp⟩, ?_⟩
          cases cap with
          | zero => rfl
          | succ cap => simp [ofToken, hleaf, cut, pure, Except.pure]

section Parts

variable {root : Constituent}
  {whole capped : (part : Constituent) → part.span.width < root.span.width →
    Except ExtractionError Forest}

/--
Reading on with a cap and without one.  The capped forest stays the cut of the other at every
witness; once it is full, one more witness means at least one more tree.
-/
theorem ofSplits_cut (cap : Nat)
    (hparts : ∀ part hlt forest, whole part hlt = .ok forest →
      forest.Whole ∧ capped part hlt = .ok (forest.cut cap))
    {witnesses : List Witness} {start final : Forest} (hstart : start.truncated = false)
    (h : ofSplits none root whole witnesses start = .ok final) :
    final.truncated = false ∧
      (∃ more, final.trees = start.trees ++ more ∧ (witnesses ≠ [] → more ≠ [])) ∧
      ofSplits (some cap) root capped witnesses (start.cut cap) = .ok (final.cut cap) := by
  induction witnesses generalizing start with
  | nil =>
      cases h
      exact ⟨hstart, ⟨[], by simp⟩, rfl⟩
  | cons witness witnesses ih =>
      obtain ⟨left, right, hsplit, lefts, rights, hlefts, hrights, h⟩ :=
        exists_parts_of_ofSplits (isFull_none start) h
      obtain ⟨hleftWhole, hleftCut⟩ := hparts _ _ _ hlefts
      obtain ⟨hrightWhole, hrightCut⟩ := hparts _ _ _ hrights
      have hgrown : (start.grow none root lefts rights).truncated = false := by
        simp [grow, hstart, hleftWhole.truncated_eq, hrightWhole.truncated_eq]
      obtain ⟨hfinal, ⟨more, hmore, -⟩, hcapped⟩ := ih hgrown h
      have htrees : final.trees =
          start.trees ++ (product root lefts.trees rights.trees ++ more) := by
        rw [hmore, ← List.append_assoc]
        rfl
      have hnew : product root lefts.trees rights.trees ++ more ≠ [] := by
        apply List.append_ne_nil_of_left_ne_nil
        apply List.ne_nil_of_length_pos
        rw [length_product]
        exact Nat.mul_pos (List.length_pos_iff.mpr hleftWhole.trees_ne_nil)
          (List.length_pos_iff.mpr hrightWhole.trees_ne_nil)
      refine ⟨hfinal, ⟨_, htrees, fun _ => hnew⟩, ?_⟩
      by_cases hroom : start.trees.length < cap
      · have hfull : (start.cut cap).isFull (some cap) = false := by
          simp [cut]
          omega
        rw [← grow_cut root hroom hleftWhole.trees_ne_nil hrightWhole.trees_ne_nil] at hcapped
        rw [ofSplits_cons_of_parts hfull hsplit, hleftCut, hrightCut]
        exact hcapped
      · have hfull : (start.cut cap).isFull (some cap) = true := by
          simp [cut]
          omega
        have hpos := List.length_pos_iff.mpr hnew
        have hmissing : cap < final.trees.length := by
          rw [htrees, List.length_append]
          omega
        rw [ofSplits_cons_of_full hfull]
        simp only [cut, hmissing, decide_true]
        rw [htrees, List.take_append_of_le_length (by omega)]

end Parts

theorem read_cut {evidence : Evidence} {root : Constituent} {forest : Forest}
    (h : read evidence none root = .ok forest) (cap : Nat) :
    forest.Whole ∧ read evidence (some cap) root = .ok (forest.cut cap) := by
  rw [read] at h ⊢
  obtain ⟨witness, witnesses, hget, hnode⟩ := exists_witnesses_of_ofParts h
  rcases hnode with ⟨htoken, hnode⟩ | ⟨hlong, hnode⟩
  · rw [ofParts_of_token hget htoken]
    exact ofToken_cut hnode cap
  · obtain ⟨hfinal, ⟨more, hmore, hnonempty⟩, hcapped⟩ :=
      ofSplits_cut cap (fun part _ _ hpart => read_cut hpart cap) rfl hnode
    rw [cut_empty] at hcapped
    rw [ofParts_of_long hget hlong]
    refine ⟨⟨hfinal, ?_⟩, hcapped⟩
    rw [hmore]
    exact hnonempty (by simp)
termination_by root.span.width

end Forest

/-! ## Limits on an extraction -/

def Limits.given (limits : Limits) : List Nat :=
  limits.perNode.toList ++ limits.total.toList

theorem Limits.cap_eq_min? (limits : Limits) : limits.cap = limits.given.min? := by
  rcases limits with ⟨_ | perNode, _ | total⟩ <;> rfl

/--
Where everything can be read without limits, any limits give the first trees, as many as the least
bound allows, and the flag is up exactly if there are more.
-/
theorem Extractor.extract_withLimits_eq_take {evidence : Evidence} {root : Constituent}
    {forest : Forest} (h : ((ofEvidence evidence).extract root).1 = .ok forest)
    (limits : Limits) :
    ∃ cut, (((ofEvidence evidence).withLimits limits).extract root).1 = .ok cut ∧
      match limits.given.min? with
      | some cap =>
          cut.trees = forest.trees.take (min cap forest.trees.length) ∧
            (cut.truncated = true ↔ cap < forest.trees.length)
      | none => cut.trees = forest.trees ∧ cut.truncated = false := by
  have hread : Forest.read evidence none root = .ok forest :=
    (extract_withLimits evidence .unbounded root).symm.trans h
  rw [extract_withLimits, limits.cap_eq_min?]
  cases limits.given.min? with
  | none => exact ⟨forest, hread, rfl, (Forest.read_cut hread 0).1.truncated_eq⟩
  | some cap =>
      refine ⟨forest.cut cap, (Forest.read_cut hread cap).2, ?_, ?_⟩
      · rw [Forest.cut, ← List.take_eq_take_min]
      · simp [Forest.cut]

def Evidence.threefold : Evidence :=
  let pair : Symbol := ⟨1, by decide⟩
  let token : Symbol := ⟨2, by decide⟩
  let records := [(0, 1, .leaf token), (1, 2, .leaf token), (2, 3, .leaf token),
    (0, 2, .split 1 pair pair), (1, 3, .split 2 pair pair), (0, 3, .split 1 pair pair),
    (0, 3, .split 2 pair pair)]
  let filled : Except Fault Evidence := records.foldlM
    (fun evidence (start, stop, witness) => evidence.record ⟨pair, ⟨start, stop⟩⟩ witness) ∅
  filled.toOption.getD ∅

theorem Extractor.extract_threefold_eq_take :
    ∃ forest cut,
      ((ofEvidence .threefold).extract ⟨⟨1, by decide⟩, ⟨0, 3⟩⟩).1 = .ok forest ∧
      forest.trees.length = 2 ∧
      (((ofEvidence .threefold).withLimits ⟨some 3, some 1⟩).extract
        ⟨⟨1, by decide⟩, ⟨0, 3⟩⟩).1 = .ok cut ∧
      cut.trees = forest.trees.take (min 1 forest.trees.length) ∧
      (cut.truncated = true ↔ 1 < forest.trees.length) := by
  have hcount : ((ofEvidence .threefold).extract ⟨⟨1, by decide⟩, ⟨0, 3⟩⟩).1.toOption.map
      (fun forest => forest.trees.length) = some 2 := by
    decide +kernel
  cases hforest : ((ofEvidence .threefold).extract ⟨⟨1, by decide⟩, ⟨0, 3⟩⟩).1 with
  | error error =>
      rw [hforest] at hcount
      cases hcount
  | ok forest =>
      rw [hforest] at hcount
      obtain ⟨cut, hcut, htrees, hflag⟩ := extract_withLimits_eq_take hforest ⟨some 3, some 1⟩
      exact ⟨forest, cut, rfl, Option.some.inj hcount, hcut, htrees, hflag⟩

end ChartParsing
