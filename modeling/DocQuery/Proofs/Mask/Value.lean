import DocQuery.Key
import DocQuery.Operand.Binding
import DocQuery.Proofs.Document.Rules
import DocQuery.Rule

namespace DocQuery

/-! # Masked values

A masked value has the structure of a value and none of its content: all numbers are the same number
and all texts the same text. The text is that of an instant, so that a masked value can be bound
wherever the value can.

* `Alike.masked_eq`: values that differ in their content only have one masked value.
* `bind_masked`: a masked value is bound wherever the value is, to the masked operand.
-/

/-- The key calls one of the functions of a query: its operator is theirs, and its first column is
called `order`, `limit` or `offset`. -/
def Key.callsFunction (text : String) : Bool :=
  match Key.parse text with
  | some key =>
    key.operator == ":" && FunctionName.all.any fun f => f.text == key.columns.head?.getD ""
  | none => false

namespace Timestamp

/-- The instant that stands for all. -/
def masked : Timestamp := ⟨0, 0, 0⟩

/-- The text that stands for all. -/
def maskedText : String := "1970-01-01T00:00:00Z"

theorem parse_maskedText : parse maskedText = some masked := by
  decide +kernel

end Timestamp

theorem TimeSpan.after_masked : after Timestamp.masked (.int 0) = some Timestamp.masked := by
  decide +kernel

namespace Json

mutual

/-- The value without its content. What stands under the functions of a query is kept. -/
def masked : Json → Json
  | null => null
  | bool b => bool b
  | number _ => number (.int 0)
  | string _ => string Timestamp.maskedText
  | array items => array (maskedItems items)
  | object fields => object (maskedFields fields)

def maskedItems : List Json → List Json
  | [] => []
  | item :: items => item.masked :: maskedItems items

def maskedFields : List (String × Json) → List (String × Json)
  | [] => []
  | (key, value) :: fields =>
    (key, if Key.callsFunction key then value else value.masked) :: maskedFields fields

end

theorem maskedItems_eq_map (items : List Json) : maskedItems items = items.map masked := by
  induction items with
  | nil => rw [maskedItems, List.map_nil]
  | cons item items ih => rw [maskedItems, ih, List.map_cons]

@[simp] theorem isString_masked (value : Json) : value.masked.isString = value.isString := by
  cases value <;> rfl

@[simp] theorem isNumber_masked (value : Json) : value.masked.isNumber = value.isNumber := by
  cases value <;> rfl

@[simp] theorem isObject_masked (value : Json) : value.masked.isObject = value.isObject := by
  cases value <;> rfl

/-! ## Values that differ in content only -/

mutual

/-- The values have the same structure and the same keys in the same order. They may differ in texts
and in numbers, but not under the functions of a query. -/
inductive Alike : Json → Json → Prop where
  | null : Alike .null .null
  | bool (b : Bool) : Alike (.bool b) (.bool b)
  | number (n n' : JsonNumber) : Alike (.number n) (.number n')
  | string (t t' : String) : Alike (.string t) (.string t')
  | array {items items' : List Json} (each : AlikeItems items items') :
      Alike (.array items) (.array items')
  | object {fields fields' : List (String × Json)} (each : AlikeFields fields fields') :
      Alike (.object fields) (.object fields')

inductive AlikeItems : List Json → List Json → Prop where
  | nil : AlikeItems [] []
  | cons {item item' : Json} {items items' : List Json} (first : Alike item item')
      (rest : AlikeItems items items') : AlikeItems (item :: items) (item' :: items')

inductive AlikeFields : List (String × Json) → List (String × Json) → Prop where
  | nil : AlikeFields [] []
  | same {key : String} {value : Json} {fields fields' : List (String × Json)}
      (rest : AlikeFields fields fields') :
      AlikeFields ((key, value) :: fields) ((key, value) :: fields')
  | alike {key : String} {value value' : Json} {fields fields' : List (String × Json)}
      (free : Key.callsFunction key = false) (first : Alike value value')
      (rest : AlikeFields fields fields') :
      AlikeFields ((key, value) :: fields) ((key, value') :: fields')

end

mutual

/-- Values that are alike are the same once they are masked. -/
theorem Alike.masked_eq {v v' : Json} : Alike v v' → v.masked = v'.masked
  | .null => rfl
  | .bool _ => rfl
  | .number _ _ => by rw [masked, masked]
  | .string _ _ => by rw [masked, masked]
  | .array each => by rw [masked, masked, each.masked_eq]
  | .object each => by rw [masked, masked, each.masked_eq]

/-- Lists of alike values are masked to one list. -/
theorem AlikeItems.masked_eq {items items' : List Json} :
    AlikeItems items items' → maskedItems items = maskedItems items'
  | .nil => rfl
  | .cons first rest => by rw [maskedItems, maskedItems, first.masked_eq, rest.masked_eq]

/-- Objects of alike fields are masked to one object. -/
theorem AlikeFields.masked_eq {fields fields' : List (String × Json)} :
    AlikeFields fields fields' → maskedFields fields = maskedFields fields'
  | .nil => rfl
  | .same rest => by rw [maskedFields, maskedFields, rest.masked_eq]
  | .alike free first rest => by
    rw [maskedFields, maskedFields, free, first.masked_eq, rest.masked_eq]
    rfl

end

end Json

/-! ## Operands -/

namespace Operand

mutual

/-- The operand without its content. -/
def masked : Operand → Operand
  | null => null
  | bool b => bool b
  | int _ => int 0
  | float _ => int 0
  | text _ => text Timestamp.maskedText
  | instant _ => instant Timestamp.masked
  | list items => list (maskedItems items)

def maskedItems : List Operand → List Operand
  | [] => []
  | item :: items => item.masked :: maskedItems items

end

/-- A number is bound as a number, whichever it is. -/
theorem masked_of_ofNumber {n : JsonNumber} {o : Operand} (h : ofNumber n = some o) :
    o.masked = int 0 := by
  cases n with
  | int i =>
    rw [ofNumber] at h
    -- an integer out of range becomes a float, which is masked by the same operand
    split at h
    · cases h
      rw [masked]
    · rcases Option.map_eq_some_iff.1 h with ⟨x, _, rfl⟩
      rw [masked]
  | float x =>
    cases h
    rw [masked]

mutual

/-- A masked value denotes the masked operand. -/
theorem ofJson?_masked : ∀ {v : Json} {o : Operand}, ofJson? v = some o →
    ofJson? v.masked = some o.masked
  | .null, _, h => by
    cases h
    rw [Json.masked, masked, ofJson?]
  | .bool b, _, h => by
    cases h
    rw [Json.masked, masked, ofJson?]
  | .number n, _, h => by
    rw [ofJson?] at h
    rw [masked_of_ofNumber h, Json.masked, ofJson?]
    rfl
  | .string t, _, h => by
    cases h
    rw [Json.masked, masked, ofJson?]
  | .array items, _, h => by
    rw [ofJson?] at h
    rcases Option.map_eq_some_iff.1 h with ⟨values, hvalues, rfl⟩
    rw [Json.masked, masked, ofJson?, ofItems?_masked hvalues, Option.map_some]
  | .object _, _, h => by
    rw [ofJson?] at h
    cases h

/-- Masked items are read as masked values. -/
theorem ofItems?_masked : ∀ {items : List Json} {values : List Operand},
    ofItems? items = some values → ofItems? (Json.maskedItems items) = some (maskedItems values)
  | [], _, h => by
    cases h
    rfl
  | item :: items, _, h => by
    rw [ofItems?] at h
    split at h
    · rename_i value values hvalue hvalues
      cases h
      rw [Json.maskedItems, maskedItems, ofItems?, ofJson?_masked hvalue, ofItems?_masked hvalues]
    · cases h

end

/-- Unless it is a text for a chronological column, a value is bound as the operand it denotes. -/
theorem bind_ok_iff_denotes {label : String} {value : Json} {chronological : Bool} {o : Operand}
    (h : chronological = false ∨ value.isString = false) :
    bind label value chronological = .ok o ↔ ofJson? value = some o := by
  have hbind : bind label value chronological = bind label value false := by
    cases value with
    | string t =>
      rcases h with rfl | hstring
      · rfl
      · cases hstring
    | _ => cases chronological <;> rfl
  rw [hbind]
  simp only [bind]
  cases ofJson? value <;> simp

/-- A masked value is bound as the masked operand. -/
theorem bind_masked {label : String} {value : Json} {chronological : Bool} {o : Operand}
    (h : bind label value chronological = .ok o) :
    bind label value.masked chronological = .ok o.masked := by
  by_cases hfree : chronological = false ∨ value.isString = false
  · have hfree' : chronological = false ∨ value.masked.isString = false := by
      refine hfree.imp_right fun hstring => ?_
      rw [Json.isString_masked, hstring]
    rw [bind_ok_iff_denotes hfree']
    exact ofJson?_masked ((bind_ok_iff_denotes hfree).1 h)
  · -- a text for a chronological column is that of an instant, and so is the masked text
    rw [not_or, Bool.not_eq_false, Bool.not_eq_false] at hfree
    rcases hfree with ⟨rfl, hstring⟩
    cases value with
    | string t =>
      simp only [bind] at h
      split at h
      · cases h
        rw [Json.masked, masked]
        simp only [bind, Timestamp.parse_maskedText]
      · cases h
    | _ => cases hstring

end Operand

namespace TimeSpan

/-- A masked time span begins and ends with the instant that stands for all. -/
def masked : TimeSpan := ⟨Timestamp.masked, Timestamp.masked⟩

/-- The masked text is an instant. -/
theorem readInstant_masked (label : String) :
    readInstant label Timestamp.maskedText = .ok Timestamp.masked := by
  simp only [readInstant, Timestamp.parse_maskedText]

/-- A masked span is read wherever a span is. -/
theorem read_masked {label : String} {items : List Json} {span : TimeSpan}
    (h : read label items = .ok span) : read label (items.map Json.masked) = .ok masked := by
  rcases items_of_read h with ⟨⟨t, hfirst⟩, hsecond⟩
  unfold read
  simp only [List.getElem?_map, hfirst]
  refine bind_eq_ok_iff.2 ⟨Timestamp.masked, readInstant_masked label, ?_⟩
  rcases hsecond with ⟨t', hsecond⟩ | ⟨n, hsecond⟩
  · rw [hsecond]
    exact bind_eq_ok_iff.2 ⟨Timestamp.masked, readInstant_masked label, rfl⟩
  · -- the span of a masked number has no length
    simp only [hsecond, Option.map_some, Json.masked, after_masked]
    rfl

end TimeSpan

end DocQuery
