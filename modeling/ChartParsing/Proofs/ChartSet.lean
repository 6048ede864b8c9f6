import ChartParsing.Proofs.Chart
import Mathlib.Data.Finset.Card

/-!
# A chart in use

Requests are served on one chart in place, one after another, and some of them are refused.  The
chart answers as a set does that got each constituent whose insertion was not refused.  The spans
asked for may be any pairs of positions: those that run backwards have rows of their own, and the
others have none.  Symbols may be inserted as far as the padding of a row reaches; the padding is
never shown.
-/

namespace ChartParsing

open Outcome

namespace Chart

inductive Request where
  | insert (constituent : Constituent)
  | contains (constituent : Constituent)
  | cell (span : Span)
  | cellSize (span : Span)
  deriving DecidableEq, Repr

def Request.span : Request → Span
  | .insert constituent | .contains constituent => constituent.span
  | .cell span | .cellSize span => span

inductive Answer where
  | inserted (absent : Bool)
  | contained (present : Bool)
  | listed (symbols : List Symbol)
  | counted (number : Nat)
  deriving DecidableEq, Repr

/-! ## Requests in place -/

/-- Work on a chart in place: what was done to it before a fault stays done. -/
abbrev InPlace := ExceptT Fault (StateM Chart)

def raise (position : Nat) : InPlace Unit := do
  let chart ← get
  if position < chart.size then set { chart with raised := chart.raised.insert position }
  else throw .outOfRange

def serve : Request → InPlace Answer
  | .insert constituent => do
      let chart ← get
      let position ← ofExcept (chart.position constituent)
      if chart.raised.contains position then return .inserted false
      else
        raise position
        return .inserted true
  | .contains constituent => return .contained (← ofExcept ((← get).contains constituent))
  | .cell span => return .listed (← ofExcept ((← get).cell span))
  | .cellSize span => return .counted (← ofExcept ((← get).cellSize span))

def respond (chart : Chart) : Request → Except Fault (Answer × Chart)
  | .insert constituent => do
      let (absent, next) ← chart.insert constituent
      return (.inserted absent, next)
  | .contains constituent => return (.contained (← chart.contains constituent), chart)
  | .cell span => return (.listed (← chart.cell span), chart)
  | .cellSize span => return (.counted (← chart.cellSize span), chart)

theorem run_ofExcept {α : Type} (outcome : Except Fault α) (chart : Chart) :
    (ofExcept outcome : InPlace α).run.run chart = (outcome, chart) := by
  cases outcome <;> rfl

theorem run_bind {α β : Type} (first : InPlace α) (next : α → InPlace β) (chart : Chart) :
    (first >>= next).run.run chart =
      match first.run.run chart with
      | (.ok value, chart) => (next value).run.run chart
      | (.error fault, chart) => (.error fault, chart) := by
  rw [ExceptT.run_bind, StateT.run_bind]
  rcases first.run.run chart with ⟨fault | value, chart⟩ <;> rfl

theorem run_raise {chart : Chart} {position : Nat} (hposition : position < chart.size) :
    (raise position).run.run chart =
      (.ok (), { chart with raised := chart.raised.insert position }) := by
  change (if position < chart.size then _ else _ : InPlace Unit).run.run chart = _
  rw [if_pos hposition]
  rfl

theorem exists_row_of_position {chart : Chart} {constituent : Constituent} {position : Nat}
    (h : chart.position constituent = .ok position) :
    ∃ row, chart.row constituent.span = .ok row ∧
      position = row * chart.rowWidth + constituent.symbol.id ∧ position < chart.size := by
  rcases bind_eq_ok.mp h with ⟨row, hrow, hposition⟩
  change (if row * chart.rowWidth + constituent.symbol.id < chart.size then _ else _) = _
    at hposition
  split at hposition
  · rename_i hlt
    cases hposition
    exact ⟨row, hrow, rfl, hlt⟩
  · cases hposition

theorem run_insert (chart : Chart) (constituent : Constituent) :
    (serve (.insert constituent)).run.run chart =
      match chart.insert constituent with
      | .ok (absent, next) => (.ok (.inserted absent), next)
      | .error fault => (.error fault, chart) := by
  change (ofExcept (chart.position constituent) >>= _ : InPlace Answer).run.run chart = _
  rw [run_bind, run_ofExcept, insert]
  cases hposition : chart.position constituent with
  | error fault => rfl
  | ok position =>
      cases hraised : chart.raised.contains position with
      | true =>
          simp only [bind, Except.bind, hraised, if_true]
          rfl
      | false =>
          simp only [bind, Except.bind, hraised, Bool.false_eq_true, if_false]
          change (raise position >>= _ : InPlace Answer).run.run chart = _
          rcases exists_row_of_position hposition with ⟨-, -, -, hlt⟩
          rw [run_bind, run_raise hlt]
          rfl

/-- A request is answered, or it does nothing: it never stops halfway. -/
theorem run_serve (request : Request) (chart : Chart) :
    (serve request).run.run chart =
      match chart.respond request with
      | .ok (answer, next) => (.ok answer, next)
      | .error fault => (.error fault, chart) := by
  have hlook {α : Type} (outcome : Except Fault α) (answer : α → Answer) :
      (return answer (← ofExcept outcome) : InPlace Answer).run.run chart =
        match (return (answer (← outcome), chart) : Except Fault (Answer × Chart)) with
        | .ok (answer, next) => (.ok answer, next)
        | .error fault => (.error fault, chart) := by
    rw [run_bind, run_ofExcept]
    cases outcome <;> rfl
  cases request with
  | insert constituent =>
      rw [run_insert, respond]
      cases chart.insert constituent <;> rfl
  | contains constituent => exact hlook (chart.contains constituent) .contained
  | cell span => exact hlook (chart.cell span) .listed
  | cellSize span => exact hlook (chart.cellSize span) .counted

/-! ## What is refused -/

section Refusals

variable {chart : Chart} {constituent : Constituent} {span : Span}

theorem eq_of_row {row : Nat} (h : chart.row span = .ok row) :
    0 < span.stop ∧ span.stop ≤ chart.numTokens ∧
      row = span.start * chart.numTokens + (span.stop - 1) := by
  rw [Chart.row] at h
  split at h
  · cases h
  · rename_i hstop
    rcases bind_eq_ok.mp h with ⟨base, hbase, hrest⟩
    rcases bind_eq_ok.mp hrest with ⟨offset, hoffset, hrow⟩
    unfold Word.minus at hoffset
    split at hoffset
    · rename_i hpos
      cases hoffset
      rw [(checked_eq_ok_iff.mp hrow).2.symm, (checked_eq_ok_iff.mp hbase).2]
      exact ⟨hpos, Nat.le_of_not_lt hstop, rfl⟩
    · cases hoffset

theorem hasRow_of_row {row : Nat} (h : chart.row span = .ok row)
    (hrow : row < chart.numTokens * chart.numTokens) : span.HasRow chart.numTokens := by
  rcases eq_of_row h with ⟨hpos, hstop, rfl⟩
  -- The stop is bounded by a check, the start only by the number of rows.
  have hstart : span.start * chart.numTokens < chart.numTokens * chart.numTokens := by omega
  exact ⟨Nat.lt_of_mul_lt_mul_right hstart, hpos, hstop⟩

theorem hasRow_of_position {position : Nat} (h : chart.position constituent = .ok position) :
    constituent.span.HasRow chart.numTokens := by
  rcases exists_row_of_position h with ⟨row, hrow, rfl, hlt⟩
  have hflags : row * chart.rowWidth < chart.numTokens * chart.numTokens * chart.rowWidth :=
    Nat.lt_of_le_of_lt (Nat.le_add_right _ _) hlt
  exact hasRow_of_row hrow (Nat.lt_of_mul_lt_mul_right hflags)

theorem hasRow_of_contains (hsymbol : constituent.symbol.id < chart.numSymbols) {present : Bool}
    (h : chart.contains constituent = .ok present) :
    constituent.span.HasRow chart.numTokens := by
  rw [contains, if_pos hsymbol] at h
  cases hposition : chart.position constituent with
  | error fault =>
      rw [hposition] at h
      cases h
  | ok position => exact hasRow_of_position hposition

theorem hasRow_of_cell {symbols : List Symbol} (hsymbols : 0 < chart.numSymbols)
    (h : chart.cell span = .ok symbols) : span.HasRow chart.numTokens := by
  rcases bind_eq_ok.mp h with ⟨row, hrow, hrest⟩
  rcases bind_eq_ok.mp hrest with ⟨next, hnext, hcell⟩
  rcases checked_eq_ok_iff.mp hnext with ⟨-, rfl⟩
  apply hasRow_of_row hrow
  split at hcell
  · rename_i hend
    have hwidth := Nat.lt_of_lt_of_le hsymbols chart.numSymbols_le_rowWidth
    exact Nat.le_of_mul_le_mul_right hend hwidth
  · cases hcell

theorem exists_respond (hfits : chart.Fits) (request : Request)
    (hspan : request.span.HasRow chart.numTokens)
    (hsymbol : ∀ constituent, request = .insert constituent →
      constituent.symbol.id < chart.rowWidth) :
    ∃ answer next, chart.respond request = .ok (answer, next) := by
  cases request with
  | insert constituent =>
      rcases insert_raises hfits hspan (hsymbol constituent rfl) with ⟨raised, hinsert, -⟩
      rw [respond, hinsert]
      exact ⟨_, _, rfl⟩
  | contains constituent =>
      rw [respond, contains_eq hfits hspan]
      exact ⟨_, _, rfl⟩
  | cell span =>
      have hcell : chart.cell span = _ := cell_eq hfits hspan
      rw [respond, hcell]
      exact ⟨_, _, rfl⟩
  | cellSize span =>
      have hcell : chart.cell span = _ := cell_eq hfits hspan
      rw [respond, cellSize, hcell]
      exact ⟨_, _, rfl⟩

end Refusals

/-! ## The set beside the chart -/

structure InUse where
  chart : Chart
  held : Finset Constituent

def Request.added : Request → Except Fault Answer → Finset Constituent
  | .insert constituent, .ok _ => {constituent}
  | _, _ => ∅

namespace InUse

def ofChart (chart : Chart) : InUse := ⟨chart, ∅⟩

def serve (inUse : InUse) (request : Request) : Except Fault Answer × InUse :=
  let (result, chart) := (Chart.serve request).run.run inUse.chart
  (result, ⟨chart, inUse.held ∪ request.added result⟩)

def after (inUse : InUse) (requests : List Request) : InUse :=
  requests.foldl (fun inUse request => (inUse.serve request).2) inUse

end InUse

/-- The answer is that of a set, of which the symbols from `numSymbols` on are not shown. -/
def Answer.Right (numSymbols : Nat) (held : Finset Constituent) : Request → Answer → Prop
  | .insert constituent, .inserted absent => absent = true ↔ constituent ∉ held
  | .contains constituent, .contained present =>
      present = true ↔ constituent.symbol.id < numSymbols ∧ constituent ∈ held
  | .cell span, .listed symbols =>
      symbols.Pairwise (fun first second => first.id < second.id) ∧
        ∀ symbol : Symbol, symbol ∈ symbols ↔ symbol.id < numSymbols ∧ ⟨symbol, span⟩ ∈ held
  | .cellSize span, .counted number =>
      number = (held.filter fun constituent =>
        constituent.symbol.id < numSymbols ∧ constituent.span = span).card
  | _, _ => False

/-- The flags that are up are those of the set. -/
structure InUse.Refines (inUse : InUse) (numTokens numSymbols : Nat) : Prop where
  numTokens_eq : inUse.chart.numTokens = numTokens
  numSymbols_eq : inUse.chart.numSymbols = numSymbols
  fits : inUse.chart.Fits
  isRaised_iff : ∀ constituent : Constituent, constituent.span.HasRow inUse.chart.numTokens →
    constituent.symbol.id < inUse.chart.rowWidth →
      (inUse.chart.isRaised constituent = true ↔ constituent ∈ inUse.held)

section Refinement

variable {inUse : InUse} {numTokens numSymbols : Nat}

theorem InUse.serve_of_respond {request : Request} {answer : Answer} {next : Chart}
    (h : inUse.chart.respond request = .ok (answer, next)) :
    inUse.serve request = (.ok answer, ⟨next, inUse.held ∪ request.added (.ok answer)⟩) := by
  simp only [serve, run_serve, h]

theorem InUse.serve_of_fault {request : Request} {fault : Fault}
    (h : inUse.chart.respond request = .error fault) :
    inUse.serve request = (.error fault, inUse) := by
  have hadded : request.added (.error fault) = ∅ := by
    cases request <;> rfl
  simp only [serve, run_serve, h, hadded, Finset.union_empty]

theorem InUse.Refines.holds_iff (h : inUse.Refines numTokens numSymbols)
    {constituent : Constituent} (hspan : constituent.span.HasRow inUse.chart.numTokens) :
    inUse.chart.holds constituent = true ↔
      constituent.symbol.id < numSymbols ∧ constituent ∈ inUse.held := by
  rw [holds, Bool.and_eq_true, decide_eq_true_eq, h.numSymbols_eq, and_congr_right_iff]
  intro hsymbol
  rw [← h.numSymbols_eq] at hsymbol
  exact h.isRaised_iff constituent hspan
    (Nat.lt_of_lt_of_le hsymbol inUse.chart.numSymbols_le_rowWidth)

theorem InUse.Refines.contains_iff (h : inUse.Refines numTokens numSymbols)
    {constituent : Constituent} {present : Bool}
    (hcontains : inUse.chart.contains constituent = .ok present) :
    present = true ↔ constituent.symbol.id < numSymbols ∧ constituent ∈ inUse.held := by
  by_cases hsymbol : constituent.symbol.id < numSymbols
  · have hspan := hasRow_of_contains (by rw [h.numSymbols_eq]; exact hsymbol) hcontains
    rw [contains_eq h.fits hspan, Except.ok.injEq] at hcontains
    rw [← hcontains, h.holds_iff hspan]
  · rw [contains, h.numSymbols_eq, if_neg hsymbol] at hcontains
    cases hcontains
    simp [hsymbol]

theorem pairwise_symbols (count : Nat) (shown : Symbol → Bool) :
    (((List.range count).filterMap Symbol.ofNat?).filter shown).Pairwise
      fun first second => first.id < second.id := by
  apply List.Pairwise.filter
  rw [List.pairwise_filterMap]
  apply List.pairwise_lt_range.imp
  intro first second hlt symbol hsymbol other hother
  rw [Symbol.ofNat?_eq_some_iff] at hsymbol hother
  omega

theorem InUse.Refines.cell_right (h : inUse.Refines numTokens numSymbols) {span : Span}
    {symbols : List Symbol} (hcell : inUse.chart.cell span = .ok symbols) :
    Answer.Right numSymbols inUse.held (.cell span) (.listed symbols) := by
  -- Without symbols an empty cell is also shown for a span that has no row.
  rcases Nat.eq_zero_or_pos numSymbols with hzero | hpos
  · have hnil : symbols = [] := by
      rcases bind_eq_ok.mp hcell with ⟨row, -, hrest⟩
      rcases bind_eq_ok.mp hrest with ⟨next, -, hsymbols⟩
      rw [h.numSymbols_eq, hzero] at hsymbols
      split at hsymbols <;> cases hsymbols
      rfl
    simp [Answer.Right, hnil, hzero]
  · have hspan := hasRow_of_cell (by rw [h.numSymbols_eq]; exact hpos) hcell
    rw [cell_eq h.fits hspan, Except.ok.injEq] at hcell
    subst hcell
    refine ⟨pairwise_symbols _ _, fun symbol => ?_⟩
    rw [List.mem_filter, h.holds_iff hspan, h.numSymbols_eq, and_iff_right_iff_imp]
    rintro ⟨hsymbol, -⟩
    rw [List.mem_filterMap]
    exact ⟨symbol.id, List.mem_range.mpr hsymbol, symbol.ofNat?_id⟩

theorem Answer.right_counted_of_listed {held : Finset Constituent} {span : Span}
    {symbols : List Symbol}
    (h : Answer.Right numSymbols held (.cell span) (.listed symbols)) :
    Answer.Right numSymbols held (.cellSize span) (.counted symbols.length) := by
  rcases h with ⟨hordered, hmem⟩
  have hnodup : (symbols.map fun symbol => Constituent.mk symbol span).Nodup := by
    rw [List.Nodup, List.pairwise_map]
    apply hordered.imp
    rintro first second hlt heq
    cases heq
    exact Nat.lt_irrefl _ hlt
  have hlist : (symbols.map fun symbol => Constituent.mk symbol span).toFinset =
      held.filter fun constituent =>
        constituent.symbol.id < numSymbols ∧ constituent.span = span := by
    ext ⟨symbol, other⟩
    simp only [List.mem_toFinset, List.mem_map, Finset.mem_filter, Constituent.mk.injEq, hmem]
    constructor
    · rintro ⟨_, ⟨hsymbol, hheld⟩, rfl, rfl⟩
      exact ⟨hheld, hsymbol, rfl⟩
    · rintro ⟨hheld, hsymbol, rfl⟩
      exact ⟨symbol, ⟨hsymbol, hheld⟩, rfl, rfl⟩
  rw [Answer.Right, ← hlist, List.toFinset_card_of_nodup hnodup, List.length_map]

theorem InUse.Refines.insert (h : inUse.Refines numTokens numSymbols)
    {constituent : Constituent} (hsymbol : constituent.symbol.id < inUse.chart.rowWidth)
    {absent : Bool} {next : Chart}
    (hinsert : inUse.chart.insert constituent = .ok (absent, next)) :
    (absent = true ↔ constituent ∉ inUse.held) ∧
      InUse.Refines ⟨next, inUse.held ∪ {constituent}⟩ numTokens numSymbols := by
  rcases bind_eq_ok.mp hinsert with ⟨position, hposition, -⟩
  have hspan := hasRow_of_position hposition
  rcases insert_raises h.fits hspan hsymbol with ⟨raised, hother, hraised⟩
  cases hinsert.symm.trans hother
  refine ⟨?_, h.numTokens_eq, h.numSymbols_eq, ⟨h.fits.rows_lt, h.fits.size_lt⟩, ?_⟩
  · rw [← h.isRaised_iff constituent hspan hsymbol]
    simp
  · intro other hotherSpan hotherSymbol
    rw [hraised other hotherSpan hotherSymbol, Bool.or_eq_true, decide_eq_true_eq,
      h.isRaised_iff other hotherSpan hotherSymbol, Finset.mem_union, Finset.mem_singleton]
    exact Or.comm

theorem InUse.Refines.serve (h : inUse.Refines numTokens numSymbols) {request : Request}
    (hsymbol : ∀ constituent, request = .insert constituent →
      constituent.symbol.id < inUse.chart.rowWidth) :
    (inUse.serve request).2.Refines numTokens numSymbols ∧
      ∀ answer, (inUse.serve request).1 = .ok answer →
        answer.Right numSymbols inUse.held request := by
  cases hrespond : inUse.chart.respond request with
  | error fault =>
      rw [serve_of_fault hrespond]
      exact ⟨h, nofun⟩
  | ok response =>
      rcases response with ⟨answer, next⟩
      rw [serve_of_respond hrespond]
      suffices hboth : Refines ⟨next, inUse.held ∪ request.added (.ok answer)⟩
          numTokens numSymbols ∧ answer.Right numSymbols inUse.held request by
        refine ⟨hboth.1, fun other hother => ?_⟩
        cases hother
        exact hboth.2
      cases request with
      | insert constituent =>
          rcases bind_eq_ok.mp hrespond with ⟨⟨absent, chart⟩, hinsert, hresponse⟩
          cases hresponse
          exact (h.insert (hsymbol constituent rfl) hinsert).symm
      | contains constituent =>
          rcases bind_eq_ok.mp hrespond with ⟨present, hcontains, hresponse⟩
          cases hresponse
          simp only [Request.added, Finset.union_empty]
          exact ⟨h, h.contains_iff hcontains⟩
      | cell span =>
          rcases bind_eq_ok.mp hrespond with ⟨symbols, hcell, hresponse⟩
          cases hresponse
          simp only [Request.added, Finset.union_empty]
          exact ⟨h, h.cell_right hcell⟩
      | cellSize span =>
          rcases bind_eq_ok.mp hrespond with ⟨number, hcellSize, hresponse⟩
          cases hresponse
          simp only [Request.added, Finset.union_empty]
          rw [cellSize] at hcellSize
          cases hcell : inUse.chart.cell span with
          | error fault =>
              rw [hcell] at hcellSize
              cases hcellSize
          | ok symbols =>
              rw [hcell] at hcellSize
              cases hcellSize
              exact ⟨h, Answer.right_counted_of_listed (h.cell_right hcell)⟩

/-! ## Any sequence of requests -/

theorem InUse.held_serve (inUse : InUse) (request : Request) :
    inUse.held ⊆ (inUse.serve request).2.held :=
  Finset.subset_union_left

theorem InUse.held_after (inUse : InUse) (requests : List Request) :
    inUse.held ⊆ (inUse.after requests).held := by
  induction requests generalizing inUse with
  | nil => exact Finset.Subset.refl _
  | cons request requests ih =>
      exact (inUse.held_serve request).trans (ih (inUse.serve request).2)

theorem InUse.Refines.rowWidth_eq (h : inUse.Refines numTokens numSymbols) :
    inUse.chart.rowWidth = (numSymbols + 31) / 32 * 32 := by
  rw [rowWidth, h.numSymbols_eq]

def Request.Padded (numSymbols : Nat) (request : Request) : Prop :=
  ∀ constituent, request = .insert constituent →
    constituent.symbol.id < (numSymbols + 31) / 32 * 32

theorem InUse.Refines.after (h : inUse.Refines numTokens numSymbols) {requests : List Request}
    (hsymbols : ∀ request ∈ requests, request.Padded numSymbols) :
    (inUse.after requests).Refines numTokens numSymbols := by
  induction requests generalizing inUse with
  | nil => exact h
  | cons request requests ih =>
      have hsymbol := hsymbols request (by simp)
      rw [Request.Padded, ← h.rowWidth_eq] at hsymbol
      exact ih (h.serve hsymbol).1 fun other hother => hsymbols other (by simp [hother])

theorem InUse.Refines.contains_after (h : inUse.Refines numTokens numSymbols)
    {requests : List Request} (hsymbols : ∀ request ∈ requests, request.Padded numSymbols)
    {constituent : Constituent} (hcontains : inUse.chart.contains constituent = .ok true) :
    (inUse.after requests).chart.contains constituent = .ok true := by
  have hlater := h.after hsymbols
  rcases (h.contains_iff hcontains).mp rfl with ⟨hsymbol, hheld⟩
  have hspan := hasRow_of_contains (by rw [h.numSymbols_eq]; exact hsymbol) hcontains
  rw [h.numTokens_eq, ← hlater.numTokens_eq] at hspan
  rw [contains_eq hlater.fits hspan, Except.ok.injEq, hlater.holds_iff hspan]
  exact ⟨hsymbol, inUse.held_after requests hheld⟩

theorem InUse.Refines.inserts_iff (h : inUse.Refines numTokens numSymbols)
    {constituent : Constituent} (hsymbol : constituent.symbol.id < inUse.chart.rowWidth) :
    (∃ answer, (inUse.serve (.insert constituent)).1 = .ok answer) ↔
      constituent.span.HasRow numTokens := by
  constructor
  · rintro ⟨answer, hanswer⟩
    cases hrespond : inUse.chart.respond (.insert constituent) with
    | error fault =>
        rw [serve_of_fault hrespond] at hanswer
        cases hanswer
    | ok response =>
        rcases bind_eq_ok.mp hrespond with ⟨inserted, hinsert, -⟩
        rcases bind_eq_ok.mp hinsert with ⟨position, hposition, -⟩
        rw [← h.numTokens_eq]
        exact hasRow_of_position hposition
  · intro hspan
    rw [← h.numTokens_eq] at hspan
    rcases exists_respond h.fits (.insert constituent) hspan
      (by rintro _ ⟨⟩; exact hsymbol) with ⟨answer, next, hrespond⟩
    rw [serve_of_respond hrespond]
    exact ⟨answer, rfl⟩

theorem blank_refines {chart : Chart} (hblank : blank numTokens numSymbols = .ok chart) :
    (InUse.ofChart chart).Refines numTokens numSymbols := by
  rcases bind_eq_ok.mp hblank with ⟨rows, hrows, hrest⟩
  rcases bind_eq_ok.mp hrest with ⟨padded, -, hrest⟩
  rcases bind_eq_ok.mp hrest with ⟨size, hsize, hchart⟩
  cases hchart
  refine ⟨rfl, rfl, ⟨(checked_eq_ok_iff.mp hrows).1, (checked_eq_ok_iff.mp hsize).1⟩, ?_⟩
  intro constituent _ _
  simp [InUse.ofChart, isRaised]

end Refinement

/--
A blank chart that serves any requests stays in step with the set of what was inserted.  A request
is answered as the set answers it, or it is refused and changes nothing; it is not refused if its
span has a row, and an insertion only then.  What was inserted stays.
-/
theorem blank_serves_as_set {numTokens numSymbols : Nat} {chart : Chart}
    (hblank : blank numTokens numSymbols = .ok chart) {requests : List Request}
    (hsymbols : ∀ request ∈ requests, request.Padded numSymbols)
    {earlier later : List Request} {request : Request}
    (hrequests : requests = earlier ++ request :: later) :
    let before := (InUse.ofChart chart).after earlier
    let final := (InUse.ofChart chart).after requests
    (∀ answer, (before.serve request).1 = .ok answer →
      answer.Right numSymbols before.held request) ∧
    (∀ fault, (before.serve request).1 = .error fault → (before.serve request).2 = before) ∧
    (request.span.HasRow numTokens → ∃ answer, (before.serve request).1 = .ok answer) ∧
    (∀ constituent, request = .insert constituent → ¬ constituent.span.HasRow numTokens →
      ∃ fault, (before.serve request).1 = .error fault) ∧
    before.held ⊆ final.held ∧
    ∀ constituent, before.chart.contains constituent = .ok true →
      final.chart.contains constituent = .ok true := by
  intro before final
  have hbefore : before.Refines numTokens numSymbols :=
    (blank_refines hblank).after fun other hother => hsymbols other (by simp [hrequests, hother])
  have hsymbol := hsymbols request (by simp [hrequests])
  rw [Request.Padded, ← hbefore.rowWidth_eq] at hsymbol
  have hfinal : final = before.after (request :: later) := by
    simp only [final, before, hrequests, InUse.after, List.foldl_append]
  refine ⟨(hbefore.serve hsymbol).2, ?_, ?_, ?_, ?_, ?_⟩
  · intro fault hfault
    cases hrespond : before.chart.respond request with
    | error cause => rw [InUse.serve_of_fault hrespond]
    | ok response =>
        rw [InUse.serve_of_respond hrespond] at hfault
        cases hfault
  · intro hspan
    rw [← hbefore.numTokens_eq] at hspan
    rcases exists_respond hbefore.fits request hspan hsymbol with ⟨answer, next, hrespond⟩
    rw [InUse.serve_of_respond hrespond]
    exact ⟨answer, rfl⟩
  · rintro constituent rfl hspan
    cases hresult : (before.serve (.insert constituent)).1 with
    | error fault => exact ⟨fault, rfl⟩
    | ok answer => exact absurd ((hbefore.inserts_iff (hsymbol _ rfl)).mp ⟨answer, hresult⟩) hspan
  · rw [hfinal]
    exact before.held_after _
  · intro constituent hcontains
    rw [hfinal]
    apply hbefore.contains_after _ hcontains
    intro other hother
    exact hsymbols other (by rw [hrequests]; exact List.mem_append_right _ hother)

theorem blank_small_serves_as_set :
    let before := (InUse.ofChart ⟨2, 1, ∅⟩).after
      [.insert ⟨⟨1, by decide⟩, ⟨1, 1⟩⟩, .insert ⟨⟨32, by decide⟩, ⟨0, 2⟩⟩,
        .insert ⟨⟨1, by decide⟩, ⟨0, 3⟩⟩]
    (before.serve (.cell ⟨1, 1⟩)).1 = .ok (.listed [⟨1, by decide⟩]) ∧
      Answer.Right 1 before.held (.cell ⟨1, 1⟩) (.listed [⟨1, by decide⟩]) ∧
      before.held = {⟨⟨1, by decide⟩, ⟨1, 1⟩⟩, ⟨⟨32, by decide⟩, ⟨0, 2⟩⟩} := by
  intro before
  have hlisted : (before.serve (.cell ⟨1, 1⟩)).1 = .ok (.listed [⟨1, by decide⟩]) := by
    decide +kernel
  have hsymbols : ∀ request ∈ ([.insert ⟨⟨1, by decide⟩, ⟨1, 1⟩⟩,
      .insert ⟨⟨32, by decide⟩, ⟨0, 2⟩⟩, .insert ⟨⟨1, by decide⟩, ⟨0, 3⟩⟩,
      .cell ⟨1, 1⟩] : List Request), request.Padded 1 := by
    simp [Request.Padded, Symbol.id, Symbol.number]
  have hserves := blank_serves_as_set (rfl : blank 2 1 = .ok ⟨2, 1, ∅⟩) hsymbols
    (rfl : _ = [_, _, _] ++ Request.cell ⟨1, 1⟩ :: [])
  exact ⟨hlisted, hserves.1 _ hlisted, by decide +kernel⟩

end Chart

end ChartParsing
