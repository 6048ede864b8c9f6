import ChartParsing.Text.Quoted

/-!
# Reading text back

What is written item by item can be read back if every item can be told from
where it stands, together with the place where the next one begins, and the end
cannot be taken for an item.  Words without marks are read back up to a mark.
Quoted words may have any character in them, and are read back up to the first
quote that is not part of an escape.
-/

namespace ChartParsing.Text

/-! ## Items written one after the other -/

section Readable

variable {α β : Type} {write : α → List β} {good : α → Prop} {ends : List β → Prop}

/-- The good items can be told from their texts, whatever follows, and from the end. -/
structure Readable (write : α → List β) (good : α → Prop) (ends : List β → Prop) : Prop where
  not_ends : ∀ ⦃item⦄, good item → ∀ rest, ¬ ends (write item ++ rest)
  append_inj : ∀ ⦃item other⦄, good item → good other → ∀ ⦃rest otherRest⦄,
    write item ++ rest = write other ++ otherRest → item = other ∧ rest = otherRest

theorem Readable.flatMap_inj (h : Readable write good ends) {items others : List α}
    {rest otherRest : List β} (hitems : ∀ item ∈ items, good item)
    (hothers : ∀ other ∈ others, good other) (hrest : ends rest) (hotherRest : ends otherRest)
    (hall : items.flatMap write ++ rest = others.flatMap write ++ otherRest) :
    items = others ∧ rest = otherRest := by
  induction items generalizing others with
  | nil =>
      cases others with
      | nil => exact ⟨rfl, hall⟩
      | cons other others =>
          rw [List.flatMap_nil, List.nil_append, List.flatMap_cons, List.append_assoc] at hall
          rw [hall] at hrest
          exact absurd hrest (h.not_ends (hothers other (by simp)) _)
  | cons item items ih =>
      rw [List.flatMap_cons, List.append_assoc] at hall
      cases others with
      | nil =>
          rw [List.flatMap_nil, List.nil_append] at hall
          rw [← hall] at hotherRest
          exact absurd hotherRest (h.not_ends (hitems item (by simp)) _)
      | cons other others =>
          rw [List.flatMap_cons, List.append_assoc] at hall
          rcases h.append_inj (hitems item (by simp)) (hothers other (by simp)) hall with
            ⟨hfirst, hall⟩
          rcases ih (fun item hitem => hitems item (by simp [hitem]))
            (fun other hother => hothers other (by simp [hother])) hall with ⟨hlists, hrests⟩
          exact ⟨by rw [hfirst, hlists], hrests⟩

end Readable

theorem readable_unmarked (marks : List Char) :
    Readable (fun c => [c]) (fun c => c ∉ marks) (fun rest => ∀ c ∈ rest.head?, c ∈ marks) where
  not_ends _ hc _ h := hc (h _ rfl)
  append_inj _ _ _ _ _ _ h := List.cons.inj h

theorem append_inj_of_marks {marks word other rest otherRest : List Char}
    (hword : ∀ c ∈ word, c ∉ marks) (hother : ∀ c ∈ other, c ∉ marks)
    (hrest : ∀ c ∈ rest.head?, c ∈ marks) (hotherRest : ∀ c ∈ otherRest.head?, c ∈ marks)
    (h : word ++ rest = other ++ otherRest) : word = other ∧ rest = otherRest := by
  apply (readable_unmarked marks).flatMap_inj hword hother hrest hotherRest
  rw [List.flatMap_singleton', List.flatMap_singleton', h]

/-! ## Numbers in hexadecimal -/

def hexValue (c : Char) : Nat := if c.toNat < 58 then c.toNat - 48 else c.toNat - 87

def readHex (digits : List Char) : Nat := digits.foldl (fun value c => 16 * value + hexValue c) 0

theorem hexValue_digitChar : ∀ digit < 16, hexValue (Nat.digitChar digit) = digit := by decide

theorem readHex_toDigits (n : Nat) : readHex (Nat.toDigits 16 n) = n := by
  induction n using Nat.strongRecOn with
  | ind n ih =>
      rw [Nat.toDigits_eq_if (by decide)]
      split
      · rename_i hlt
        simp [readHex, hexValue_digitChar n hlt]
      · have hfront := ih (n / 16) (by omega)
        rw [readHex] at hfront
        rw [readHex, List.foldl_append, hfront]
        simp only [List.foldl_cons, List.foldl_nil]
        rw [hexValue_digitChar (n % 16) (Nat.mod_lt n (by decide))]
        exact Nat.div_add_mod n 16

theorem mem_toDigits {n : Nat} {c : Char} (h : c ∈ Nat.toDigits 16 n) :
    ∃ digit < 16, c = Nat.digitChar digit := by
  induction n using Nat.strongRecOn with
  | ind n ih =>
      rw [Nat.toDigits_eq_if (by decide)] at h
      split at h
      · rename_i hlt
        exact ⟨n, hlt, List.mem_singleton.mp h⟩
      · rcases List.mem_append.mp h with hfront | hlast
        · exact ih (n / 16) (by omega) hfront
        · exact ⟨n % 16, Nat.mod_lt n (by decide), List.mem_singleton.mp hlast⟩

theorem digitChar_ne : ∀ digit < 16, Nat.digitChar digit ≠ '\x7d' ∧ Nat.digitChar digit ≠ '\n' := by
  decide

/-! ## Escapes -/

def unescapeAfter? : List Char → Option (Char × List Char)
  | '0' :: rest => some ('\x00', rest)
  | 't' :: rest => some ('\t', rest)
  | 'n' :: rest => some ('\n', rest)
  | 'r' :: rest => some ('\r', rest)
  | '"' :: rest => some ('"', rest)
  | '\\' :: rest => some ('\\', rest)
  | 'u' :: '\x7b' :: rest =>
      some (Char.ofNat (readHex (rest.takeWhile (· ≠ '\x7d'))),
        (rest.dropWhile (· ≠ '\x7d')).drop 1)
  | _ => none

def unescape? : List Char → Option (Char × List Char)
  | [] => none
  | c :: rest =>
      if c = '"' then none else if c = '\\' then unescapeAfter? rest else some (c, rest)

theorem unescapeAfter?_code (c : Char) (rest : List Char) :
    unescapeAfter? ('u' :: '\x7b' :: (Nat.toDigits 16 c.toNat ++ '\x7d' :: rest)) =
      some (c, rest) := by
  have hdigits : ∀ d ∈ Nat.toDigits 16 c.toNat, decide (d ≠ '\x7d') = true := by
    intro d hd
    rcases mem_toDigits hd with ⟨digit, hlt, rfl⟩
    exact decide_eq_true (digitChar_ne digit hlt).1
  simp only [unescapeAfter?]
  rw [List.takeWhile_append_of_pos hdigits, List.dropWhile_append_of_pos hdigits]
  simp [readHex_toDigits]

/-- The three ways to write a character: marked, as it is, or by its code point. -/
inductive Spells (c : Char) : List Char → Prop
  | marked {mark : Char} (hmark : mark ≠ '\n')
      (hread : ∀ rest, unescapeAfter? (mark :: rest) = some (c, rest)) : Spells c ['\\', mark]
  | itself (hquote : c ≠ '"') (hbackslash : c ≠ '\\') (hnewline : c ≠ '\n') : Spells c [c]
  | code : Spells c (escapeByCode c)

theorem spells_escape (c : Char) : Spells c (escape c) := by
  have hmarked {mark d : Char} (hd : c = d) (hmark : mark ≠ '\n')
      (hread : ∀ rest, unescapeAfter? (mark :: rest) = some (d, rest)) :
      Spells c ['\\', mark] :=
    .marked hmark (hd ▸ hread)
  unfold escape
  split
  · exact hmarked ‹_› (by decide) fun _ => rfl
  split
  · exact hmarked ‹_› (by decide) fun _ => rfl
  split
  · exact hmarked ‹_› (by decide) fun _ => rfl
  split
  · exact hmarked ‹_› (by decide) fun _ => rfl
  split
  · exact hmarked ‹_› (by decide) fun _ => rfl
  split
  · exact hmarked ‹_› (by decide) fun _ => rfl
  split
  · exact .itself ‹_› ‹_› ‹_›
  · exact .code

theorem unescape?_escape (c : Char) (rest : List Char) :
    unescape? (escape c ++ rest) = some (c, rest) := by
  have hspells := spells_escape c
  generalize escape c = written at hspells
  cases hspells with
  | marked _ hread => exact hread rest
  | itself hquote hbackslash _ => simp [unescape?, hquote, hbackslash]
  | code =>
      simp only [escapeByCode, List.append_assoc, List.cons_append, List.nil_append]
      exact unescapeAfter?_code c rest

theorem newline_not_mem_escape (c : Char) : '\n' ∉ escape c := by
  have hspells := spells_escape c
  generalize escape c = written at hspells
  cases hspells with
  | marked hmark _ => simp [Ne.symm hmark]
  | itself _ _ hnewline => simp [Ne.symm hnewline]
  | code =>
      have hdigits : '\n' ∉ Nat.toDigits 16 c.toNat := by
        intro h
        rcases mem_toDigits h with ⟨digit, hlt, hdigit⟩
        exact (digitChar_ne digit hlt).2 hdigit.symm
      simp [escapeByCode, hdigits]

theorem readable_escape :
    Readable escape (fun _ => True) (fun rest => unescape? rest = none) where
  not_ends c _ rest := by simp [unescape?_escape]
  append_inj c d _ _ rest otherRest h := by
    have hread := unescape?_escape c rest
    rw [h, unescape?_escape, Option.some.injEq, Prod.mk.injEq] at hread
    exact ⟨hread.1.symm, hread.2.symm⟩

theorem flatMap_escape_inj {word other rest otherRest : List Char}
    (h : word.flatMap escape ++ '"' :: rest = other.flatMap escape ++ '"' :: otherRest) :
    word = other ∧ rest = otherRest := by
  have hclose (rest : List Char) : unescape? ('"' :: rest) = none := by
    simp [unescape?]
  rcases readable_escape.flatMap_inj (fun _ _ => trivial) (fun _ _ => trivial) (hclose rest)
    (hclose otherRest) h with ⟨hwords, hrests⟩
  exact ⟨hwords, (List.cons.inj hrests).2⟩

end ChartParsing.Text
