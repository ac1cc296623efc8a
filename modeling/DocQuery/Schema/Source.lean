import DocQuery.Json.Raw
import DocQuery.Toml.Basic

/-!
# Schema sources

What the reading of a schema sees of a document, whichever format the document has: texts, lists and
records matter, other scalars only fit where anything does.
-/

namespace DocQuery

namespace Schema

/-- A part of a schema document. -/
inductive Source where
  | null
  | text (s : String)
  /-- A scalar that is neither null nor a text. -/
  | scalar
  /-- A list. Where it stands for a record, `surplus` admits more items than the record has
  fields. -/
  | list (surplus : Bool) (items : List Source)
  | record (fields : List (String × Source))
  /-- A part that denotes no value. -/
  | unreadable
deriving Repr, Inhabited

namespace Source

mutual

/-- Every part denotes a value. -/
def isReadable : Source → Bool
  | list _ items => itemsReadable items
  | record fields => fieldsReadable fields
  | unreadable => false
  | _ => true

def itemsReadable : List Source → Bool
  | [] => true
  | item :: items => item.isReadable && itemsReadable items

def fieldsReadable : List (String × Source) → Bool
  | [] => true
  | (_, value) :: fields => value.isReadable && fieldsReadable fields

end

mutual

/-- The source that a JSON text is. -/
def ofRaw : RawJson → Source
  | .null => null
  | .string s => text s
  | .bool _ => scalar
  | .number _ => scalar
  | .array items => list false (ofRawItems items)
  | .object fields => record (ofRawFields fields)
  | .unreadable => unreadable

def ofRawItems : List RawJson → List Source
  | [] => []
  | item :: items => ofRaw item :: ofRawItems items

def ofRawFields : List (String × RawJson) → List (String × Source)
  | [] => []
  | (key, value) :: fields => (key, ofRaw value) :: ofRawFields fields

end

mutual

/-- The source that a JSON value is. -/
def ofJson : Json → Source
  | .null => null
  | .string s => text s
  | .bool _ => scalar
  | .number _ => scalar
  | .array items => list false (ofJsonItems items)
  | .object fields => record (ofJsonFields fields)

def ofJsonItems : List Json → List Source
  | [] => []
  | item :: items => ofJson item :: ofJsonItems items

def ofJsonFields : List (String × Json) → List (String × Source)
  | [] => []
  | (key, value) :: fields => (key, ofJson value) :: ofJsonFields fields

end

mutual

/-- The source that a TOML value is. A list may have surplus items. -/
def ofToml : Toml → Source
  | .string s => text s
  | .array items => list true (ofTomlItems items)
  | .table entries => record (ofTomlEntries entries)
  | _ => scalar

def ofTomlItems : List Toml → List Source
  | [] => []
  | item :: items => ofToml item :: ofTomlItems items

def ofTomlEntries : List (String × Toml) → List (String × Source)
  | [] => []
  | (key, value) :: entries => (key, ofToml value) :: ofTomlEntries entries

end

mutual

/-- A text that denotes a value is the source that the value is. -/
theorem ofRaw_eq_ofJson : {raw : RawJson} → {value : Json} → raw.toJson? = some value →
    ofRaw raw = ofJson value
  | .null, _, h => by simp only [RawJson.toJson?, Option.some.injEq] at h; subst h; rfl
  | .bool _, _, h => by simp only [RawJson.toJson?, Option.some.injEq] at h; subst h; rfl
  | .number _, _, h => by simp only [RawJson.toJson?, Option.some.injEq] at h; subst h; rfl
  | .string _, _, h => by simp only [RawJson.toJson?, Option.some.injEq] at h; subst h; rfl
  | .array items, _, h => by
    obtain ⟨values, hv, rfl⟩ := Option.map_eq_some_iff.1 h
    simp only [ofRaw, ofJson, ofRawItems_eq hv]
  | .object fields, _, h => by
    obtain ⟨values, hv, rfl⟩ := Option.map_eq_some_iff.1 h
    simp only [ofRaw, ofJson, ofRawFields_eq hv]

theorem ofRawItems_eq : {items : List RawJson} → {values : List Json} →
    RawJson.itemsToJson? items = some values → ofRawItems items = ofJsonItems values
  | [], _, h => by
    simp only [RawJson.itemsToJson?, Option.some.injEq] at h
    subst h
    rfl
  | item :: items, _, h => by
    simp only [RawJson.itemsToJson?, Option.bind_eq_bind, Option.bind_eq_some_iff,
      Option.some.injEq] at h
    obtain ⟨value, hv, values, hvs, rfl⟩ := h
    simp only [ofRawItems, ofJsonItems, ofRaw_eq_ofJson hv, ofRawItems_eq hvs]

theorem ofRawFields_eq : {fields : List (String × RawJson)} → {values : List (String × Json)} →
    RawJson.fieldsToJson? fields = some values → ofRawFields fields = ofJsonFields values
  | [], _, h => by
    simp only [RawJson.fieldsToJson?, Option.some.injEq] at h
    subst h
    rfl
  | (key, field) :: fields, _, h => by
    simp only [RawJson.fieldsToJson?, Option.bind_eq_bind, Option.bind_eq_some_iff,
      Option.some.injEq] at h
    obtain ⟨value, hv, values, hvs, rfl⟩ := h
    simp only [ofRawFields, ofJsonFields, ofRaw_eq_ofJson hv, ofRawFields_eq hvs]

end

end Source

end Schema

end DocQuery
