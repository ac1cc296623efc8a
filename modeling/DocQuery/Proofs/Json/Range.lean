import DocQuery.Json.Reader
import Mathlib.Data.List.Forall2

namespace DocQuery

/-! # The whole numbers that are read

A whole number of a text is kept as such only if it is a word of 64 bits, with or without sign, at
whatever depth it stands. All others become doubles.

* `readValue_wordSized`: by induction on the fuel of the reader, whatever it reads is word-sized.
* `parse_wordSized`: so a value that is read from a text has words for its whole numbers.
-/

/-- `part` stands somewhere in the value, at any depth. -/
inductive Json.HasPart : Json → Json → Prop where
  | self (value : Json) : HasPart value value
  | item {items : List Json} {item part : Json} (mem : item ∈ items) (inner : HasPart item part) :
      HasPart (.array items) part
  | field {fields : List (String × Json)} {key : String} {value part : Json}
      (mem : (key, value) ∈ fields) (inner : HasPart value part) : HasPart (.object fields) part

/-- A whole number is a word of 64 bits, with or without sign. -/
def JsonNumber.IsWord (n : JsonNumber) : Prop := ∀ i, n = .int i → minInt ≤ i ∧ i ≤ maxInt

namespace Json

variable {items : List Json} {part : Json}

/-- A number has no part but itself. -/
@[simp] theorem number_hasPart_iff {n : JsonNumber} :
    (Json.number n).HasPart part ↔ part = .number n := by
  constructor
  · rintro ⟨⟩
    rfl
  · rintro rfl
    exact .self _

/-- A text has no part but itself. -/
@[simp] theorem string_hasPart_iff {s : String} : (Json.string s).HasPart part ↔ part = .string s := by
  constructor
  · rintro ⟨⟩
    rfl
  · rintro rfl
    exact .self _

/-- The parts of an array are itself and those of its items. -/
@[simp] theorem array_hasPart_iff :
    (Json.array items).HasPart part ↔ part = .array items ∨ ∃ item ∈ items, item.HasPart part := by
  constructor
  · rintro (_ | ⟨hmem, hpart⟩)
    · exact .inl rfl
    · exact .inr ⟨_, hmem, hpart⟩
  · rintro (rfl | ⟨item, hmem, hpart⟩)
    · exact .self _
    · exact .item hmem hpart

/-- All whole numbers of the value are words. -/
def WordSized (value : Json) : Prop := ∀ n, value.HasPart (.number n) → n.IsWord

/-- An array is word-sized if its items are. -/
theorem wordSized_array (h : ∀ item ∈ items, item.WordSized) : (Json.array items).WordSized := by
  rintro n (_ | ⟨hmem, hpart⟩)
  exact h _ hmem n hpart

theorem WordSized.item (h : (Json.array items).WordSized) {item : Json} (hmem : item ∈ items) :
    item.WordSized := fun n hn => h n (.item hmem hn)

/-- An object is word-sized if its fields are. -/
theorem wordSized_object {fields : List (String × Json)} (h : ∀ field ∈ fields, field.2.WordSized) :
    (Json.object fields).WordSized := by
  rintro n ⟨⟩
  rename_i hmem hpart
  exact h _ hmem n hpart

end Json

namespace RawJson

/-- Whatever the raw value denotes has words for whole numbers. -/
def WordSized (raw : RawJson) : Prop := ∀ v, raw.toJson? = some v → v.WordSized

theorem wordSized_number {n : JsonNumber} (h : n.IsWord) : (RawJson.number n).WordSized := by
  rintro _ ⟨⟩ m hm
  cases Json.number_hasPart_iff.1 hm
  exact h

theorem wordSized_string (s : String) : (RawJson.string s).WordSized := by
  rintro _ ⟨⟩ _ ⟨⟩

theorem wordSized_null : RawJson.null.WordSized := by
  rintro _ ⟨⟩ _ ⟨⟩

theorem wordSized_bool (b : Bool) : (RawJson.bool b).WordSized := by
  rintro _ ⟨⟩ _ ⟨⟩

theorem wordSized_unreadable : RawJson.unreadable.WordSized := by
  rintro _ ⟨⟩

/-- A raw array is word-sized if its items are. -/
theorem wordSized_array {items : List RawJson} (h : ∀ item ∈ items, item.WordSized) :
    (RawJson.array items).WordSized := by
  have hvalues : ∀ values, itemsToJson? items = some values → ∀ value ∈ values, value.WordSized := by
    -- an array denotes what its items denote, one by one
    induction items with
    | nil =>
      rintro _ ⟨⟩ value ⟨⟩
    | cons item items ih =>
      intro values hvalues
      simp only [itemsToJson?, Option.bind_eq_bind, Option.bind_eq_some_iff,
        Option.some.injEq] at hvalues
      rcases hvalues with ⟨value, hvalue, values, hvalues, rfl⟩
      exact List.forall_mem_cons.2 ⟨h item List.mem_cons_self value hvalue,
        ih (fun item' hitem' => h item' (List.mem_cons_of_mem _ hitem')) values hvalues⟩
  intro v hv
  rw [toJson?, Option.map_eq_some_iff] at hv
  rcases hv with ⟨values, hread, rfl⟩
  exact Json.wordSized_array (hvalues values hread)

/-- A raw object is word-sized if its fields are. -/
theorem wordSized_object {fields : List (String × RawJson)} (h : ∀ field ∈ fields, field.2.WordSized) :
    (RawJson.object fields).WordSized := by
  have hvalues : ∀ values, fieldsToJson? fields = some values →
      ∀ field ∈ values, field.2.WordSized := by
    induction fields with
    | nil =>
      rintro _ ⟨⟩ field ⟨⟩
    | cons field fields ih =>
      intro values hvalues
      simp only [fieldsToJson?, Option.bind_eq_bind, Option.bind_eq_some_iff,
        Option.some.injEq] at hvalues
      rcases hvalues with ⟨value, hvalue, values, hvalues, rfl⟩
      exact List.forall_mem_cons.2 ⟨h field List.mem_cons_self value hvalue,
        ih (fun field' hfield' => h field' (List.mem_cons_of_mem _ hfield')) values hvalues⟩
  intro v hv
  rw [toJson?, Option.map_eq_some_iff] at hv
  rcases hv with ⟨values, hread, rfl⟩
  exact Json.wordSized_object (hvalues values hread)

end RawJson

namespace Json

/-! ## Reading -/

/-- A number of a text is kept as a whole number only if it is a word. -/
theorem isWord_of_decimalNumber {negative : Bool} {whole fraction : List Char} {exponent : Option Int}
    {n : JsonNumber} (h : decimalNumber negative whole fraction exponent = some n) : n.IsWord := by
  -- the digits that are read fit 64 bits, so the upper bound holds without a test
  have hlimit : (appendDigits 0 whole).1 < wordLimit := appendDigits_lt whole (by decide)
  have hsigned : (if negative then -((appendDigits 0 whole).1 : Int) else (appendDigits 0 whole).1) ≤
      JsonNumber.maxInt := by
    rw [wordLimit] at hlimit
    rw [JsonNumber.maxInt]
    split <;> omega
  unfold decimalNumber at h
  simp only at h
  generalize (if negative then -((appendDigits 0 whole).1 : Int) else (appendDigits 0 whole).1) = value
    at h hsigned
  split at h
  · -- the lower bound is tested before the number is kept
    rename_i hwhole
    cases h
    rintro i ⟨⟩
    exact ⟨hwhole.2.2.2.1, hsigned⟩
  · rcases Option.map_eq_some_iff.1 h with ⟨x, _, rfl⟩
    rintro i ⟨⟩

/-- What is made of a part is word-sized, as what denotes nothing is. -/
theorem wordSized_rawOf {α : Type} {make : α → RawJson} {part : Option α}
    (h : ∀ a, part = some a → (make a).WordSized) : (rawOf make part).WordSized := by
  cases part with
  | none => exact RawJson.wordSized_unreadable
  | some a => exact h a rfl

/-- A number is word-sized, or denotes nothing. -/
theorem readNumber_wordSized {negative : Bool} {cs rest : List Char} {n : Option JsonNumber}
    (h : readNumber negative cs = some (n, rest)) : (rawOf .number n).WordSized := by
  simp only [readNumber, bind, Option.bind_eq_some_iff, Option.some.injEq, Prod.mk.injEq] at h
  rcases h with ⟨⟨whole, _⟩, _, ⟨fraction, _⟩, _, ⟨exponent, _⟩, _, rfl, _⟩
  exact wordSized_rawOf fun n hn => RawJson.wordSized_number (isWord_of_decimalNumber hn)

/-- Of the scalars only numbers have to be looked at. -/
theorem readScalar_wordSized {cs rest : List Char} {raw : RawJson}
    (h : readScalar cs = some (raw, rest)) : raw.WordSized := by
  unfold readScalar at h
  split at h
  all_goals
    rcases Option.map_eq_some_iff.1 h with ⟨part, hpart, heq⟩
    cases heq
  · exact RawJson.wordSized_null
  · exact RawJson.wordSized_bool true
  · exact RawJson.wordSized_bool false
  · exact wordSized_rawOf fun s _ => RawJson.wordSized_string s
  · exact readNumber_wordSized hpart
  · exact readNumber_wordSized hpart

/-- An object is word-sized if its fields are, also if one of its keys cannot be read. -/
theorem rawObject_wordSized {fields : List (Option String × RawJson)}
    (h : ∀ field ∈ fields, field.2.WordSized) : (rawObject fields).WordSized := by
  refine wordSized_rawOf fun named hnamed => RawJson.wordSized_object ?_
  induction fields generalizing named with
  | nil =>
    cases hnamed
    exact List.forall_mem_nil _
  | cons field fields ih =>
    simp only [List.mapM_cons, bind, Option.bind_eq_some_iff, Option.map_eq_some_iff, pure,
      Option.some.injEq] at hnamed
    rcases hnamed with ⟨_, ⟨key, _, rfl⟩, rest, hrest, rfl⟩
    exact List.forall_mem_cons.2 ⟨h field List.mem_cons_self,
      ih (fun field' hfield' => h field' (List.mem_cons_of_mem _ hfield')) rest hrest⟩

/-- All that is read is word-sized: a value, the items behind those that are done, and the fields. -/
theorem readValue_wordSized (fuel : Nat) :
    (∀ depth cs raw rest, readValue fuel depth cs = some (raw, rest) → raw.WordSized) ∧
      (∀ depth done cs items rest, (∀ item ∈ done, item.WordSized) →
        readItems fuel depth done cs = some (items, rest) → ∀ item ∈ items, item.WordSized) ∧
      ∀ depth done cs fields rest, (∀ field ∈ done, field.2.WordSized) →
        readFields fuel depth done cs = some (fields, rest) → ∀ field ∈ fields, field.2.WordSized := by
  induction fuel with
  | zero => exact ⟨fun _ _ _ _ => nofun, fun _ _ _ _ _ _ => nofun, fun _ _ _ _ _ _ => nofun⟩
  | succ fuel ih =>
    rcases ih with ⟨ihValue, ihItems, ihFields⟩
    refine ⟨?_, ?_, ?_⟩
    · -- what a bracket opens is too deep, closed at once or read on; all else is a scalar
      intro depth cs raw rest h
      unfold readValue at h
      split at h
      · split at h
        · rcases Option.map_eq_some_iff.1 h with ⟨_, _, heq⟩
          cases heq
          exact RawJson.wordSized_unreadable
        · split at h
          · cases h
            exact RawJson.wordSized_array (List.forall_mem_nil _)
          · rcases Option.map_eq_some_iff.1 h with ⟨_, hitems, heq⟩
            cases heq
            exact RawJson.wordSized_array (ihItems _ _ _ _ _ (List.forall_mem_nil _) hitems)
      · split at h
        · rcases Option.map_eq_some_iff.1 h with ⟨_, _, heq⟩
          cases heq
          exact RawJson.wordSized_unreadable
        · split at h
          · cases h
            exact RawJson.wordSized_object (List.forall_mem_nil _)
          · rcases Option.map_eq_some_iff.1 h with ⟨_, hfields, heq⟩
            cases heq
            exact rawObject_wordSized (ihFields _ _ _ _ _ (List.forall_mem_nil _) hfields)
      · exact readScalar_wordSized h
    · intro depth done cs items rest hdone h
      unfold readItems at h
      split at h
      · cases h
      · -- an item is done before what stands behind it is looked at
        rename_i item next hitem
        have hdone' := List.forall_mem_cons.2 ⟨ihValue _ _ _ _ hitem, hdone⟩
        split at h
        · exact ihItems _ _ _ _ _ hdone' h
        · cases h
          intro item' hmem
          exact hdone' item' (List.mem_reverse.1 hmem)
        · cases h
    · intro depth done cs fields rest hdone h
      unfold readFields at h
      split at h
      · cases h
      · split at h
        · cases h
        · rename_i value next hvalue
          have hdone' : ∀ key : Option String, ∀ field ∈ (key, value) :: done, field.2.WordSized :=
            fun _ => List.forall_mem_cons.2 ⟨ihValue _ _ _ _ hvalue, hdone⟩
          split at h
          · exact ihFields _ _ _ _ _ (hdone' _) h
          · cases h
            intro field' hmem
            exact hdone' _ field' (List.mem_reverse.1 hmem)
          · cases h

/-- The whole numbers of a value that a text denotes are words. -/
theorem read_wordSized {text : String} {v : Json} (h : read text = some v) : v.WordSized := by
  rcases Option.bind_eq_some_iff.1 h with ⟨raw, hraw, hv⟩
  unfold readRaw at hraw
  simp only at hraw
  split at hraw
  · rename_i hvalue
    split at hraw
    · cases hraw
      exact (readValue_wordSized _).1 _ _ _ _ hvalue v hv
    · cases hraw
  · cases hraw

/-! ## Repeated keys -/

/-- A field that is put replaces one or is new. -/
theorem of_mem_putField {α : Type} {fields : List (String × α)} {key : String} {value : α}
    {field : String × α} (h : field ∈ putField fields key value) :
    field = (key, value) ∨ field ∈ fields := by
  unfold putField at h
  split at h
  · rcases List.mem_map.1 h with ⟨old, hold, heq⟩
    split at heq
    · exact .inl heq.symm
    · exact .inr (heq ▸ hold)
  · rcases List.mem_append.1 h with hold | hnew
    · exact .inr hold
    · exact .inl (List.mem_singleton.1 hnew)

/-- The resolved fields are among those done and the resolved others. -/
theorem wordSized_mergedFields {done fields : List (String × Json)}
    (hdone : ∀ field ∈ done, field.2.WordSized)
    (h : ∀ field ∈ fields, field.2.merged.WordSized) :
    ∀ field ∈ mergedFields done fields, field.2.WordSized := by
  induction fields generalizing done with
  | nil => exact hdone
  | cons field fields ih =>
    rw [List.forall_mem_cons] at h
    rw [mergedFields]
    refine ih ?_ h.2
    intro field' hfield'
    rcases of_mem_putField hfield' with rfl | hold
    · exact h.1
    · exact hdone field' hold

/-- The items of an array are merged one by one. -/
theorem mergedItems_eq_map (items : List Json) : mergedItems items = items.map merged := by
  induction items with
  | nil => rfl
  | cons item items ih => rw [mergedItems, ih, List.map_cons]

/-- Resolving repeated keys brings in no numbers. -/
theorem WordSized.merged : ∀ {v : Json}, v.WordSized → v.merged.WordSized
  | .null, h | .bool _, h | .number _, h | .string _, h => by
    rw [Json.merged]
    · exact h
    · nofun
    · nofun
  -- Merging keeps all but the earlier of two fields with one key, so no part is new.
  | .array items, h => by
    have hitems : ∀ item ∈ items, item.merged.WordSized := fun item hmem => (h.item hmem).merged
    rw [Json.merged, mergedItems_eq_map]
    refine wordSized_array fun item hmem => ?_
    rcases List.mem_map.1 hmem with ⟨item', hmem', rfl⟩
    exact hitems item' hmem'
  | .object fields, h => by
    have hfields : ∀ field ∈ fields, field.2.merged.WordSized := by
      intro field hmem
      have hsize : sizeOf field < sizeOf fields := List.sizeOf_lt_of_mem hmem
      have hvalue : sizeOf field = 1 + sizeOf field.1 + sizeOf field.2 := rfl
      exact WordSized.merged fun n hn => h n (.field hmem hn)
    rw [Json.merged]
    exact wordSized_object (wordSized_mergedFields (List.forall_mem_nil _) hfields)

theorem parse_wordSized {text : String} {v : Json} (h : parse text = some v) : v.WordSized := by
  rcases Option.map_eq_some_iff.1 h with ⟨read, hread, rfl⟩
  exact (read_wordSized hread).merged

end Json

end DocQuery
