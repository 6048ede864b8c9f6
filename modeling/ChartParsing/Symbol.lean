import ChartParsing.Fault

/-!
# Symbols

A grammar names its terminals and nonterminals by labels; inside the library a
label is a `Symbol`, known by a number of 32 bits.  Terminals and nonterminals
share the numbers, and which of the two a symbol is depends on the grammar.

A symbol is stored as its number plus one, reckoned with wrap-around, and that
is never zero: the largest number is left without a symbol.
-/

namespace ChartParsing

structure Symbol where
  code : UInt32
  code_ne_zero : code ≠ 0
  deriving DecidableEq, Repr

namespace Symbol

/-- Symbol numbers lie below this bound, the largest number of 32 bits. -/
def limit : Nat := 4294967295

def number (symbol : Symbol) : UInt32 := symbol.code - 1

def ofNumber (number : UInt32) : Except Fault Symbol :=
  if h : number + 1 = 0 then .error .invalidSymbol else .ok ⟨number + 1, h⟩

def id (symbol : Symbol) : Nat := symbol.number.toNat

/-- The symbol that a machine word denotes: only the low half of the word counts. -/
def ofWord (word : Nat) : Except Fault Symbol := ofNumber (UInt32.ofNat word)

def ofNat? (id : Nat) : Option Symbol :=
  if id < limit then (ofWord id).toOption else none

instance : Ord Symbol := ⟨compareOn code⟩

instance : Std.TransOrd Symbol :=
  inferInstanceAs (Std.TransCmp (compareOn code))

instance : Std.LawfulEqOrd Symbol where
  eq_of_compare {first second} h := by
    have hcode : first.code = second.code :=
      Std.LawfulEqCmp.eq_of_compare (show compare first.code second.code = .eq from h)
    cases first
    cases second
    simpa using hcode

instance : Ord (Symbol × Symbol) := ⟨compareLex (compareOn Prod.fst) (compareOn Prod.snd)⟩

instance : Std.TransOrd (Symbol × Symbol) :=
  inferInstanceAs (Std.TransCmp (compareLex (compareOn Prod.fst) (compareOn Prod.snd)))

instance : Std.LawfulEqOrd (Symbol × Symbol) where
  eq_of_compare {first second} h := by
    have hboth := compareLex_eq_eq.mp
      (show compareLex (compareOn Prod.fst) (compareOn Prod.snd) first second = .eq from h)
    have hfirst : first.1 = second.1 := Std.LawfulEqCmp.eq_of_compare
      (show compare first.1 second.1 = .eq from hboth.1)
    have hsecond : first.2 = second.2 := Std.LawfulEqCmp.eq_of_compare
      (show compare first.2 second.2 = .eq from hboth.2)
    cases first
    cases second
    simp_all

/-! ## Numbers and codes -/

theorem ofNumber_number (symbol : Symbol) : ofNumber symbol.number = .ok symbol := by
  have hcode : symbol.code - 1 + 1 = symbol.code := UInt32.sub_add_cancel _ _
  rw [ofNumber, dif_neg (by rw [number, hcode]; exact symbol.code_ne_zero)]
  simp only [number, hcode]

theorem number_of_ofNumber {number : UInt32} {symbol : Symbol}
    (h : ofNumber number = .ok symbol) : symbol.number = number := by
  unfold ofNumber at h
  split at h
  · cases h
  · cases h
    exact UInt32.add_sub_cancel _ _

theorem number_add_one_eq_zero_iff {number : UInt32} :
    number + 1 = 0 ↔ number.toNat = limit := by
  have hlt := number.toNat_lt
  rw [← UInt32.toNat_inj, UInt32.toNat_add]
  simp [limit]
  omega

theorem exists_ofNumber {number : UInt32} (h : number.toNat < limit) :
    ∃ symbol, ofNumber number = .ok symbol := by
  have hcode : number + 1 ≠ 0 := fun hzero =>
    absurd (number_add_one_eq_zero_iff.mp hzero) (Nat.ne_of_lt h)
  exact ⟨⟨number + 1, hcode⟩, by rw [ofNumber, dif_neg hcode]⟩

theorem id_lt (symbol : Symbol) : symbol.id < limit := by
  have hlt := symbol.number.toNat_lt
  have hne : symbol.number.toNat ≠ limit := by
    rw [Ne, ← number_add_one_eq_zero_iff, number, UInt32.sub_add_cancel]
    exact symbol.code_ne_zero
  simp only [id, limit] at *
  omega

theorem id_of_ofNumber {number : UInt32} {symbol : Symbol}
    (h : ofNumber number = .ok symbol) : symbol.id = number.toNat := by
  rw [id, number_of_ofNumber h]

theorem id_inj {first second : Symbol} : first.id = second.id ↔ first = second := by
  constructor
  · intro h
    have hnumber : first.number = second.number := UInt32.toNat_inj.mp h
    have hsame : Except.ok first = Except.ok (ε := Fault) second := by
      rw [← ofNumber_number, ← ofNumber_number, hnumber]
    cases hsame
    rfl
  · rintro rfl
    rfl

theorem code_toNat (symbol : Symbol) : symbol.code.toNat = symbol.id + 1 := by
  have hlt := symbol.id_lt
  have hcode : symbol.code = symbol.number + 1 := (UInt32.sub_add_cancel _ _).symm
  simp only [id, limit] at hlt
  rw [hcode, UInt32.toNat_add]
  simp [id]
  omega

theorem code_le_of_id_lt {first second : Symbol} (h : first.id < second.id) :
    first.code ≤ second.code := by
  rw [UInt32.le_iff_toNat_le, code_toNat, code_toNat]
  omega

theorem ofNat?_eq_some_iff {id : Nat} {symbol : Symbol} :
    ofNat? id = some symbol ↔ id = symbol.id := by
  constructor
  · intro h
    unfold ofNat? at h
    split at h
    · rename_i hlt
      cases hsymbol : ofWord id with
      | error fault => simp [hsymbol, Except.toOption] at h
      | ok found =>
          have heq : found = symbol := by simpa [hsymbol, Except.toOption] using h
          subst heq
          have hnumber := id_of_ofNumber hsymbol
          simp only [limit] at hlt
          rw [hnumber, UInt32.toNat_ofNat']
          omega
    · cases h
  · rintro rfl
    rw [ofNat?, if_pos symbol.id_lt, ofWord, Symbol.id, UInt32.ofNat_toNat, ofNumber_number]
    rfl

@[simp] theorem ofNat?_id (symbol : Symbol) : ofNat? symbol.id = some symbol :=
  ofNat?_eq_some_iff.mpr rfl

theorem exists_id {id : Nat} (h : id < limit) : ∃ symbol : Symbol, symbol.id = id := by
  have hword : (UInt32.ofNat id).toNat = id := by
    simp only [limit] at h
    rw [UInt32.toNat_ofNat']
    omega
  have hlt : (UInt32.ofNat id).toNat < limit := by rwa [hword]
  obtain ⟨symbol, hsymbol⟩ := exists_ofNumber hlt
  exact ⟨symbol, by rw [id_of_ofNumber hsymbol, hword]⟩

end Symbol

end ChartParsing
