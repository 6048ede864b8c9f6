import ChartParsing.Chart
import ChartParsing.Proofs.Outcome

/-!
# Charts as sets of constituents

The flags of a chart are laid out row by row.  Two constituents of the input
whose symbols the chart is for never share a flag, so inserting one leaves the
others alone, and no operation on them is refused.
-/

namespace ChartParsing

open Outcome

structure Span.Within (span : Span) (numTokens : Nat) : Prop where
  start_lt : span.start < span.stop
  stop_le : span.stop ≤ numTokens

/-- A span that a chart for an input of the given length has a row for; it may run backwards. -/
structure Span.HasRow (span : Span) (numTokens : Nat) : Prop where
  start_lt : span.start < numTokens
  stop_pos : 0 < span.stop
  stop_le : span.stop ≤ numTokens

namespace Span

variable {span : Span} {numTokens : Nat}

theorem Within.hasRow (h : span.Within numTokens) : span.HasRow numTokens :=
  ⟨Nat.lt_of_lt_of_le h.start_lt h.stop_le, Nat.zero_lt_of_lt h.start_lt, h.stop_le⟩

theorem Within.eq_of_width (h : span.Within numTokens) :
    (⟨span.start, span.start + span.width⟩ : Span) = span := by
  rcases span with ⟨start, stop⟩
  have hstart : start < stop := h.start_lt
  simp only [width, mk.injEq, true_and]
  omega

theorem Within.start_lt_of_width (h : span.Within numTokens) :
    span.start < numTokens + 1 - span.width := by
  rcases h with ⟨hstart, hstop⟩
  simp only [width]
  omega

end Span

namespace Chart

structure Fits (chart : Chart) : Prop where
  rows_lt : chart.numTokens * chart.numTokens < Word.limit
  size_lt : chart.size < Word.limit

def flag (chart : Chart) (constituent : Constituent) : Nat :=
  (constituent.span.start * chart.numTokens + (constituent.span.stop - 1)) * chart.rowWidth +
    constituent.symbol.id

def isRaised (chart : Chart) (constituent : Constituent) : Bool :=
  chart.raised.contains (chart.flag constituent)

def holds (chart : Chart) (constituent : Constituent) : Bool :=
  decide (constituent.symbol.id < chart.numSymbols) && chart.isRaised constituent

variable {chart : Chart} {constituent : Constituent} {span : Span}

theorem numSymbols_le_rowWidth (chart : Chart) : chart.numSymbols ≤ chart.rowWidth := by
  unfold rowWidth
  omega

theorem mul_add_lt_mul {row rows column columns : Nat} (hrow : row < rows)
    (hcolumn : column < columns) : row * columns + column < rows * columns :=
  calc
    row * columns + column < row * columns + columns := Nat.add_lt_add_left hcolumn _
    _ = (row + 1) * columns := (Nat.succ_mul row columns).symm
    _ ≤ rows * columns := Nat.mul_le_mul_right columns hrow

theorem row_lt (hspan : span.HasRow chart.numTokens) :
    span.start * chart.numTokens + (span.stop - 1) < chart.numTokens * chart.numTokens := by
  have hpos := hspan.stop_pos
  have hstop := hspan.stop_le
  exact mul_add_lt_mul hspan.start_lt (by omega)

theorem row_eq (hfits : chart.Fits) (hspan : span.HasRow chart.numTokens) :
    chart.row span = .ok (span.start * chart.numTokens + (span.stop - 1)) := by
  have hlt := Nat.lt_trans (row_lt hspan) hfits.rows_lt
  rw [row, if_neg (Nat.not_lt.mpr hspan.stop_le), Word.checked_of_lt (by omega),
    Word.minus_of_le hspan.stop_pos]
  exact Word.checked_of_lt hlt

theorem position_eq (hfits : chart.Fits) (hspan : constituent.span.HasRow chart.numTokens)
    (hsymbol : constituent.symbol.id < chart.rowWidth) :
    chart.position constituent = .ok (chart.flag constituent) := by
  rw [position, row_eq hfits hspan]
  exact if_pos (mul_add_lt_mul (row_lt hspan) hsymbol)

theorem eq_and_eq_of_mul_add_eq {row row' column column' columns : Nat}
    (hcolumn : column < columns) (hcolumn' : column' < columns)
    (h : row * columns + column = row' * columns + column') :
    row = row' ∧ column = column' := by
  have hrow : ∀ row column, column < columns → (row * columns + column) / columns = row := by
    intro row column hlt
    rw [Nat.mul_comm, Nat.mul_add_div (by omega), Nat.div_eq_of_lt hlt, Nat.add_zero]
  have heq : row = row' := by
    rw [← hrow row column hcolumn, h, hrow row' column' hcolumn']
  subst heq
  exact ⟨rfl, by omega⟩

theorem flag_inj {other : Constituent} (hspan : constituent.span.HasRow chart.numTokens)
    (hsymbol : constituent.symbol.id < chart.rowWidth)
    (hotherSpan : other.span.HasRow chart.numTokens)
    (hotherSymbol : other.symbol.id < chart.rowWidth)
    (h : chart.flag constituent = chart.flag other) : constituent = other := by
  obtain ⟨hrow, hid⟩ := eq_and_eq_of_mul_add_eq hsymbol hotherSymbol h
  rcases constituent with ⟨symbol, ⟨start, stop⟩⟩
  rcases other with ⟨otherSymbol, ⟨otherStart, otherStop⟩⟩
  rcases hspan with ⟨-, hpos, hstop⟩
  rcases hotherSpan with ⟨-, hotherPos, hotherStop⟩
  simp only at hid hrow hpos hstop hotherPos hotherStop
  obtain ⟨hstarts, hstops⟩ := eq_and_eq_of_mul_add_eq (by omega) (by omega) hrow
  have hstopEq : stop = otherStop := by omega
  have hsymbols : symbol = otherSymbol := Symbol.id_inj.mp hid
  subst hsymbols hstarts hstopEq
  rfl

/-! ## The operations on spans that have a row -/

theorem contains_eq (hfits : chart.Fits) (hspan : constituent.span.HasRow chart.numTokens) :
    chart.contains constituent = .ok (chart.holds constituent) := by
  unfold contains holds
  by_cases hsymbol : constituent.symbol.id < chart.numSymbols
  · have hwidth := Nat.lt_of_lt_of_le hsymbol chart.numSymbols_le_rowWidth
    rw [if_pos hsymbol, position_eq hfits hspan hwidth, decide_eq_true hsymbol, Bool.true_and]
    rfl
  · simp [hsymbol]

theorem cell_eq (hfits : chart.Fits) (hspan : span.HasRow chart.numTokens) :
    chart.cell span = .ok (((List.range chart.numSymbols).filterMap Symbol.ofNat?).filter
      fun symbol => chart.holds ⟨symbol, span⟩) := by
  have hnext := Nat.lt_of_le_of_lt (row_lt hspan) hfits.rows_lt
  have hend : (span.start * chart.numTokens + (span.stop - 1) + 1) * chart.rowWidth ≤
      chart.size := Nat.mul_le_mul_right _ (row_lt hspan)
  rw [cell, row_eq hfits hspan]
  change (Word.checked (span.start * chart.numTokens + (span.stop - 1) + 1) >>= _) = _
  rw [Word.checked_of_lt hnext]
  change (if _ then _ else _) = _
  rw [if_pos hend]
  congr 1
  apply List.filter_congr
  intro symbol hsymbol
  simp only [List.mem_filterMap, List.mem_range, Symbol.ofNat?_eq_some_iff] at hsymbol
  rcases hsymbol with ⟨_, hlt, rfl⟩
  simp [holds, isRaised, flag, hlt]

theorem insert_raises (hfits : chart.Fits) (hspan : constituent.span.HasRow chart.numTokens)
    (hsymbol : constituent.symbol.id < chart.rowWidth) :
    ∃ raised, chart.insert constituent =
        .ok (!chart.isRaised constituent, { chart with raised }) ∧
      ∀ other : Constituent, other.span.HasRow chart.numTokens →
        other.symbol.id < chart.rowWidth →
        isRaised { chart with raised } other =
          (decide (other = constituent) || chart.isRaised other) := by
  have hinsert : chart.insert constituent =
      if chart.isRaised constituent then .ok (false, chart)
      else .ok (true, { chart with raised := chart.raised.insert (chart.flag constituent) }) := by
    rw [insert, position_eq hfits hspan hsymbol]
    rfl
  cases hraised : chart.isRaised constituent with
  | true =>
      refine ⟨chart.raised, by simp [hinsert, hraised], fun other _ _ => ?_⟩
      by_cases hother : other = constituent
      · simp [hother, hraised]
      · simp [hother]
  | false =>
      refine ⟨chart.raised.insert (chart.flag constituent), by simp [hinsert, hraised], ?_⟩
      intro other hotherSpan hotherSymbol
      change (chart.raised.insert (chart.flag constituent)).contains (chart.flag other) = _
      rw [Std.TreeSet.contains_insert]
      by_cases hother : other = constituent
      · simp [hother]
      · have hflag : chart.flag constituent ≠ chart.flag other := fun h =>
          hother (flag_inj hspan hsymbol hotherSpan hotherSymbol h).symm
        simp [isRaised, hother, hflag]

theorem insert_eq (hfits : chart.Fits) (hspan : constituent.span.HasRow chart.numTokens)
    (hsymbol : constituent.symbol.id < chart.numSymbols) :
    ∃ raised, chart.insert constituent =
        .ok (!chart.holds constituent, { chart with raised }) ∧
      ∀ other : Constituent, other.span.HasRow chart.numTokens →
        holds { chart with raised } other =
          (decide (other = constituent) || chart.holds other) := by
  have hwidth := chart.numSymbols_le_rowWidth
  obtain ⟨raised, hinsert, hraised⟩ :=
    insert_raises hfits hspan (Nat.lt_of_lt_of_le hsymbol hwidth)
  refine ⟨raised, by simpa [holds, hsymbol] using hinsert, fun other hotherSpan => ?_⟩
  by_cases hotherSymbol : other.symbol.id < chart.numSymbols
  · simp [holds, hotherSymbol, hraised other hotherSpan (Nat.lt_of_lt_of_le hotherSymbol hwidth)]
  · have hother : other ≠ constituent := by
      rintro rfl
      exact hotherSymbol hsymbol
    simp [holds, hotherSymbol, hother]

theorem blank_meets {allowed : Fault → Prop} {numTokens numSymbols : Nat}
    (hrows : Word.limit ≤ numTokens * numTokens → allowed .overflow)
    (hsymbols : numSymbols + 32 < Word.limit)
    (hsize : Word.limit ≤ numTokens * numTokens * ((numSymbols + 31) / 32 * 32) →
      allowed .overflow) :
    Meets allowed (fun chart => chart.Fits ∧ chart.numTokens = numTokens ∧
      chart.numSymbols = numSymbols ∧ ∀ constituent, chart.holds constituent = false)
      (blank numTokens numSymbols) := by
  unfold blank
  apply (checked_meets hrows).bind
  rintro _ ⟨-, hrowsLt⟩
  rw [Word.checked_of_lt hsymbols]
  apply Meets.bind (checked_meets hsize)
  rintro _ ⟨-, hsizeLt⟩
  exact ⟨⟨hrowsLt, hsizeLt⟩, rfl, rfl, fun constituent => by simp [holds, isRaised]⟩

end Chart

end ChartParsing
