import ChartParsing.Fault

/-!
# JSON values

Values are exchanged as JSON.  A number that is written as an integer is kept
apart from one that is written with a fraction or an exponent, because only the
former is read as a count, a position or a symbol.

A record with named fields is written as an object.  It is read from an object,
where other keys do not matter, or from an array with exactly its fields in
their order.
-/

namespace ChartParsing

/-- A JSON value; an object has each key once. -/
inductive Json where
  | null
  | bool (value : Bool)
  | integer (value : Int)
  | decimal (text : String)
  | string (value : String)
  | array (items : List Json)
  | object (fields : List (String × Json))
  deriving Repr

namespace Json

def nat (value : Nat) : Json := .integer value

def word? : Json → Option Nat
  | .integer (.ofNat value) => if value < Word.limit then some value else none
  | _ => none

def string? : Json → Option String
  | .string value => some value
  | _ => none

def array? : Json → Option (List Json)
  | .array items => some items
  | _ => none

def field? (json : Json) (key : String) : Option Json :=
  match json with
  | .object fields => (fields.find? fun field => field.1 = key).map Prod.snd
  | _ => none

def single? : Json → Option (String × Json)
  | .object [field] => some field
  | _ => none

def fields? (keys : List String) (json : Json) : Option (List Json) :=
  match json with
  | .object _ => keys.mapM json.field?
  | _ => none

/-- The fields of a record with the given keys. -/
def record? (keys : List String) (json : Json) : Option (List Json) :=
  match json with
  | .array items => if items.length = keys.length then some items else none
  | _ => json.fields? keys

/-- The fields of a record with the given keys, where an object may leave out any of them. -/
def partialRecord? (keys : List String) (json : Json) : Option (List Json) :=
  match json with
  | .array items => if items.length = keys.length then some items else none
  | .object _ => some (keys.map fun key => (json.field? key).getD .null)
  | _ => none

/-! ## Parts are smaller -/

theorem sizeOf_lt_of_field? {json value : Json} {key : String} (h : json.field? key = some value) :
    sizeOf value < sizeOf json := by
  cases json with
  | object fields =>
      obtain ⟨⟨name, found⟩, hfound, rfl⟩ := Option.map_eq_some_iff.mp h
      have hsize := List.sizeOf_lt_of_mem (List.mem_of_find?_eq_some hfound)
      simp only [Prod.mk.sizeOf_spec] at hsize
      simp only [object.sizeOf_spec]
      omega
  | _ => simp [field?] at h

private theorem forall_of_mapM_eq_some {α β : Type} {f : α → Option β} {P : β → Prop}
    (hf : ∀ a b, f a = some b → P b) {inputs : List α} {outputs : List β}
    (h : inputs.mapM f = some outputs) : ∀ b ∈ outputs, P b := by
  induction inputs generalizing outputs with
  | nil =>
      cases h
      simp
  | cons input inputs ih =>
      rw [List.mapM_cons] at h
      obtain ⟨first, hfirst, h⟩ := Option.bind_eq_some_iff.mp h
      obtain ⟨rest, hrest, h⟩ := Option.bind_eq_some_iff.mp h
      cases h
      intro b hb
      rcases List.mem_cons.mp hb with rfl | hb
      · exact hf _ _ hfirst
      · exact ih hrest b hb

theorem sizeOf_lt_of_record? {keys : List String} {json : Json} {parts : List Json}
    (h : json.record? keys = some parts) : ∀ part ∈ parts, sizeOf part < sizeOf json := by
  cases json with
  | array items =>
      simp only [record?] at h
      split at h
      · cases h
        intro part hpart
        have hsize := List.sizeOf_lt_of_mem hpart
        simp only [array.sizeOf_spec]
        omega
      · cases h
  | object fields =>
      exact forall_of_mapM_eq_some (fun _ _ hfield => sizeOf_lt_of_field? hfield) h
  | _ => simp [record?, fields?] at h

theorem sizeOf_lt_of_mem_of_record? {keys : List String} {json item : Json}
    {parts items : List Json} (h : json.record? keys = some parts)
    (hitems : .array items ∈ parts) (hitem : item ∈ items) : sizeOf item < sizeOf json := by
  have hpart := sizeOf_lt_of_record? h _ hitems
  have hsize := List.sizeOf_lt_of_mem hitem
  simp only [array.sizeOf_spec] at hpart
  omega

end Json

end ChartParsing
