import ChartParsing.Fault

/-!
# Outcomes of computations that can fail

A computation in `Except` either gives a value or stops with an error.  `Meets`
says of both what they have to be, and the rules below carry it through
sequences and loops, so that what a run can give and how it can fail are proved
together.
-/

namespace ChartParsing.Outcome

variable {ε α β : Type}

theorem bind_eq_ok {first : Except ε α} {next : α → Except ε β} {result : β} :
    (first >>= next) = .ok result ↔
      ∃ value, first = .ok value ∧ next value = .ok result := by
  cases first with
  | error error => simp [bind, Except.bind]
  | ok value => simp [bind, Except.bind]

theorem map_eq_ok {first : Except ε α} {f : α → β} {result : β} :
    f <$> first = .ok result ↔ ∃ value, first = .ok value ∧ f value = result := by
  cases first with
  | error error => simp [Functor.map, Except.map]
  | ok value => simp [Functor.map, Except.map]

theorem mapError_eq_ok {ε' : Type} {first : Except ε α} {f : ε → ε'} {value : α} :
    first.mapError f = .ok value ↔ first = .ok value := by
  cases first with
  | error error => exact ⟨nofun, nofun⟩
  | ok result =>
      constructor
      · intro h
        cases h
        rfl
      · intro h
        cases h
        rfl

theorem foldlM_flatMap {ι : Type} (items : List ι) (f : ι → List α) (step : β → α → Except ε β)
    (start : β) :
    (items.flatMap f).foldlM step start =
      items.foldlM (fun state item => (f item).foldlM step state) start := by
  induction items generalizing start with
  | nil => rfl
  | cons item items ih =>
      rw [List.flatMap_cons, List.foldlM_append, List.foldlM_cons]
      congr 1
      funext state
      exact ih state

theorem foldlM_congr {first second : β → α → Except ε β} {items : List α}
    (h : ∀ item ∈ items, ∀ state, first state item = second state item) (start : β) :
    items.foldlM first start = items.foldlM second start := by
  induction items generalizing start with
  | nil => rfl
  | cons item items ih =>
      rw [List.foldlM_cons, List.foldlM_cons, h item (by simp)]
      congr 1
      funext state
      exact ih (fun other hother => h other (by simp [hother])) state

theorem foldlM_keeps (kept : β → Prop) {step : β → α → Except ε β}
    (hstep : ∀ state item next, step state item = .ok next → kept state → kept next)
    {items : List α} {start final : β} (h : items.foldlM step start = .ok final)
    (hstart : kept start) : kept final := by
  induction items generalizing start with
  | nil =>
      cases h
      exact hstart
  | cons item items ih =>
      rw [List.foldlM_cons] at h
      rcases bind_eq_ok.mp h with ⟨next, hnext, hrest⟩
      exact ih hrest (hstep start item next hnext hstart)

theorem exists_bind {first : Except ε α} {next : α → Except ε β}
    (hfirst : ∃ value, first = .ok value)
    (hnext : ∀ value, ∃ result, next value = .ok result) :
    ∃ result, (first >>= next) = .ok result := by
  rcases hfirst with ⟨value, rfl⟩
  exact hnext value

theorem exists_mapM {f : α → Except ε β} {items : List α}
    (h : ∀ item ∈ items, ∃ value, f item = .ok value) :
    ∃ values, items.mapM f = .ok values := by
  induction items with
  | nil => exact ⟨[], rfl⟩
  | cons item items ih =>
      obtain ⟨value, hvalue⟩ := h item (by simp)
      obtain ⟨values, hvalues⟩ := ih fun other hother => h other (by simp [hother])
      refine ⟨value :: values, ?_⟩
      rw [List.mapM_cons, hvalue, hvalues]
      rfl

theorem mapM_eq_pure {m : Type → Type} [Monad m] [LawfulMonad m] {f : α → m β} {g : α → β}
    {items : List α} (h : ∀ item ∈ items, f item = pure (g item)) :
    items.mapM f = pure (items.map g) := by
  induction items with
  | nil => rfl
  | cons item items ih =>
      rw [List.mapM_cons, h item (by simp), ih fun other hother => h other (by simp [hother])]
      simp

theorem exists_of_mem_mapM {f : α → Except ε β} {items : List α} {values : List β}
    (h : items.mapM f = .ok values) {value : β} (hvalue : value ∈ values) :
    ∃ item ∈ items, f item = .ok value := by
  induction items generalizing values with
  | nil =>
      cases h
      cases hvalue
  | cons item items ih =>
      rw [List.mapM_cons] at h
      rcases bind_eq_ok.mp h with ⟨first, hfirst, h⟩
      rcases bind_eq_ok.mp h with ⟨rest, hrest, h⟩
      cases h
      rcases List.mem_cons.mp hvalue with rfl | hvalue
      · exact ⟨item, by simp, hfirst⟩
      · rcases ih hrest hvalue with ⟨other, hother, hsame⟩
        exact ⟨other, by simp [hother], hsame⟩

theorem nodup_of_mapM {f : α → Except ε β} {items : List α} {values : List β}
    (h : items.mapM f = .ok values) (hitems : items.Nodup)
    (hinj : ∀ first ∈ items, ∀ second ∈ items, ∀ value, f first = .ok value →
      f second = .ok value → first = second) : values.Nodup := by
  induction items generalizing values with
  | nil =>
      cases h
      exact List.nodup_nil
  | cons item items ih =>
      rw [List.mapM_cons] at h
      rcases bind_eq_ok.mp h with ⟨value, hvalue, h⟩
      rcases bind_eq_ok.mp h with ⟨rest, hrest, h⟩
      cases h
      rw [List.nodup_cons] at hitems ⊢
      refine ⟨fun hmem => ?_, ih hrest hitems.2 fun first hfirst second hsecond =>
        hinj first (by simp [hfirst]) second (by simp [hsecond])⟩
      rcases exists_of_mem_mapM hrest hmem with ⟨other, hother, hsame⟩
      rw [hinj item (by simp) other (by simp [hother]) value hvalue hsame] at hitems
      exact hitems.1 hother

/-- The value has to be good, and the error one that is allowed. -/
def Meets (allowed : ε → Prop) (good : α → Prop) : Except ε α → Prop
  | .ok value => good value
  | .error error => allowed error

section Rules

variable {allowed : ε → Prop} {good : α → Prop}

@[simp] theorem meets_ok {value : α} : Meets allowed good (.ok value) ↔ good value := Iff.rfl

@[simp] theorem meets_error {error : ε} : Meets allowed good (.error error) ↔ allowed error :=
  Iff.rfl

theorem Meets.pure {value : α} (h : good value) :
    Meets allowed good (Pure.pure value) := h

theorem Meets.bind {first : Except ε α} {next : α → Except ε β} {goodNext : β → Prop}
    (hfirst : Meets allowed good first)
    (hnext : ∀ value, good value → Meets allowed goodNext (next value)) :
    Meets allowed goodNext (first >>= next) := by
  cases first with
  | error error => exact hfirst
  | ok value => exact hnext value hfirst

theorem Meets.map {first : Except ε α} {f : α → β} {goodNext : β → Prop}
    (hfirst : Meets allowed (fun value => goodNext (f value)) first) :
    Meets allowed goodNext (f <$> first) := by
  cases first with
  | error error => exact hfirst
  | ok value => exact hfirst

theorem Meets.mono {good' : α → Prop} {outcome : Except ε α} (h : Meets allowed good outcome)
    (himp : ∀ value, good value → good' value) : Meets allowed good' outcome := by
  cases outcome with
  | error error => exact h
  | ok value => exact himp value h

theorem Meets.mono_error {allowed' : ε → Prop} {outcome : Except ε α}
    (h : Meets allowed good outcome) (himp : ∀ error, allowed error → allowed' error) :
    Meets allowed' good outcome := by
  cases outcome with
  | error error => exact himp error h
  | ok value => exact h

theorem Meets.of_eq_ok {outcome : Except ε α} {value : α} (h : Meets allowed good outcome)
    (hvalue : outcome = .ok value) : good value := by
  rw [hvalue] at h
  exact h

theorem Meets.and_eq {outcome : Except ε α} (h : Meets allowed good outcome) :
    Meets allowed (fun value => good value ∧ outcome = .ok value) outcome := by
  cases outcome with
  | error error => exact h
  | ok value => exact ⟨h, rfl⟩

theorem Meets.exists_ok {outcome : Except ε α} (h : Meets (fun _ => False) good outcome) :
    ∃ value, outcome = .ok value := by
  cases outcome with
  | error error => exact h.elim
  | ok value => exact ⟨value, rfl⟩

/-- A loop keeps what each of its steps keeps; the invariant knows the part of the list done. -/
theorem Meets.foldlM (invariant : List α → β → Prop) {step : β → α → Except ε β}
    {items : List α} {start : β} (hstart : invariant [] start)
    (hstep : ∀ done item rest state, items = done ++ item :: rest → invariant done state →
      Meets allowed (invariant (done ++ [item])) (step state item)) :
    Meets allowed (invariant items) (items.foldlM step start) := by
  suffices h : ∀ rest done state, items = done ++ rest → invariant done state →
      Meets allowed (invariant items) (rest.foldlM step state) from h items [] start rfl hstart
  intro rest
  induction rest with
  | nil =>
      intro done state hitems hstate
      rw [List.append_nil] at hitems
      subst hitems
      exact hstate
  | cons item rest ih =>
      intro done state hitems hstate
      rw [List.foldlM_cons]
      apply (hstep done item rest state hitems hstate).bind
      intro next hnext
      exact ih (done ++ [item]) next (by simp [hitems]) hnext

theorem Meets.mapM {f : α → Except ε β} {g : α → β} {items : List α}
    (h : ∀ item ∈ items, Meets allowed (fun result => result = g item) (f item)) :
    Meets allowed (fun results => results = items.map g) (items.mapM f) := by
  induction items with
  | nil => exact Meets.pure rfl
  | cons item items ih =>
      rw [List.mapM_cons]
      apply (h item (by simp)).bind
      rintro _ rfl
      apply (ih fun other hother => h other (by simp [hother])).bind
      rintro _ rfl
      exact Meets.pure rfl

end Rules

theorem checked_eq_ok_iff {value result : Nat} :
    Word.checked value = .ok result ↔ value < Word.limit ∧ value = result := by
  unfold Word.checked
  split <;> simp [*]

theorem checked_meets {allowed : Fault → Prop} {value : Nat}
    (hoverflow : Word.limit ≤ value → allowed .overflow) :
    Meets allowed (fun result => result = value ∧ value < Word.limit) (Word.checked value) := by
  unfold Word.checked
  split
  · rename_i hlt
    exact ⟨rfl, hlt⟩
  · rename_i hge
    exact hoverflow (Nat.le_of_not_lt hge)

end ChartParsing.Outcome
