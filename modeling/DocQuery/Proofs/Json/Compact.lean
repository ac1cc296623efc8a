import DocQuery.Json.Reader
import DocQuery.Json.Writer

namespace DocQuery

/-! # Reading what was written

A value without numbers, with no more brackets inside each other than are read, is read back from
its compact text. The readers work through a text from its front and give back the rest, so each
lemma says what is read where any text follows.

* `readQuoted_escaped`: escaping and reading a text undo each other, for all characters.
* `Numberless.readsBack`: so do writing and reading a value without numbers, whatever follows it.
* `Numberless.read_compact`: the compact text of a shallow value without numbers is read as the
  value.
-/

namespace Json

/-! ## Strings -/

/-- What the reader makes of a written character: control characters without an escape of their own
are written by number. -/
def unitOf (c : Char) : StringUnit :=
  if c.toNat < 32 ∧ c.toNat ∉ [8, 9, 10, 12, 13] then .code c.toNat else .char c

/-- A control character is read from the four digits that escape it. -/
theorem hexQuad?_hexDigit {n : Nat} (h : n < 32) :
    hexQuad? '0' '0' (hexDigit (n / 16)) (hexDigit (n % 16)) = some n := by
  revert n
  decide

/-- An escaped character is read as one unit. -/
theorem readUnits_escapeChar (done : List StringUnit) (c : Char) (rest : List Char) :
    readUnits done (escapeChar c ++ rest) = readUnits (unitOf c :: done) rest := by
  by_cases hnamed : c ∈
      ['"', '\\', Char.ofNat 8, Char.ofNat 9, Char.ofNat 10, Char.ofNat 12, Char.ofNat 13]
  · -- each of these has an escape of two characters
    simp only [List.mem_cons, List.not_mem_nil, or_false] at hnamed
    rcases hnamed with rfl | rfl | rfl | rfl | rfl | rfl | rfl <;> rfl
  · simp only [List.mem_cons, List.not_mem_nil, or_false, not_or] at hnamed
    have hcode : ∀ n, c ≠ Char.ofNat n → c.toNat ≠ n := by
      rintro n hne rfl
      exact hne (Char.ofNat_toNat c).symm
    obtain ⟨hquote, hbackslash, h8, h9, h10, h12, h13⟩ := hnamed
    have hcodes : c.toNat ∉ [8, 9, 10, 12, 13] := by
      simp [hcode 8 h8, hcode 9 h9, hcode 10 h10, hcode 12 h12, hcode 13 h13]
    simp only [escapeChar, hquote, hbackslash, hcode 8 h8, hcode 9 h9, hcode 10 h10, hcode 12 h12,
      hcode 13 h13, if_false]
    by_cases hcontrol : c.toNat < 32
    · rw [if_pos hcontrol, unitOf, if_pos ⟨hcontrol, hcodes⟩]
      simp only [List.cons_append, List.nil_append]
      rw [readUnits, hexQuad?_hexDigit hcontrol]
    · rw [if_neg hcontrol, unitOf, if_neg fun h => hcontrol h.1, List.singleton_append, readUnits]
      · rw [if_neg]
        rintro (h | h)
        · exact hcontrol h
        · exact hbackslash h
      · exact hquote
      · intro _ _ _ _ _ h
        exact absurd h hbackslash
      · intro _ _ h
        exact absurd h hbackslash

/-- An escaped text is read as the units of its characters, up to the closing quote. -/
theorem readUnits_flatMap (cs : List Char) (done : List StringUnit) (rest : List Char) :
    readUnits done (cs.flatMap escapeChar ++ '"' :: rest) =
      some (done.reverse ++ cs.map unitOf, rest) := by
  induction cs generalizing done with
  | nil => simp [readUnits]
  | cons c cs ih =>
    rw [List.flatMap_cons, List.append_assoc, readUnits_escapeChar, ih]
    simp

/-- A number that is no half of a pair is a character of its own, whatever follows. -/
theorem joinUnits_code {n : Nat} (h : n < 32) (done : List Char) (units : List StringUnit) :
    joinUnits done (.code n :: units) = joinUnits (Char.ofNat n :: done) units := by
  have hhigh : isHighSurrogate n = false := by
    unfold isHighSurrogate
    simp
    omega
  have hlow : isLowSurrogate n = false := by
    unfold isLowSurrogate
    simp
    omega
  rcases units with _ | ⟨_ | m, units⟩ <;> simp [joinUnits, hhigh, hlow]

/-- The units of characters are joined to the characters. -/
theorem joinUnits_map_unitOf (cs done : List Char) :
    joinUnits done (cs.map unitOf) = some (done.reverse ++ cs) := by
  induction cs generalizing done with
  | nil => simp [joinUnits]
  | cons c cs ih =>
    have hunit : joinUnits done (unitOf c :: cs.map unitOf) =
        joinUnits (c :: done) (cs.map unitOf) := by
      unfold unitOf
      split
      · rename_i hcontrol
        rw [joinUnits_code hcontrol.1, Char.ofNat_toNat]
      · rw [joinUnits]
    rw [List.map_cons, hunit, ih]
    simp

/-- A quoted text is read back. -/
theorem readQuoted_escaped (s : String) (rest : List Char) :
    readQuoted (s.toList.flatMap escapeChar ++ '"' :: rest) = some (some s, rest) := by
  rw [readQuoted, readUnits_flatMap]
  simp [joinUnits_map_unitOf]

/-- A quoted text is its escaped characters between quotes. -/
theorem toList_quoted (s : String) :
    (quoted s).toList = '"' :: (s.toList.flatMap escapeChar ++ ['"']) := by
  simp [quoted]

/-! ## Values -/

/-- The value has no numbers and at most so many brackets inside each other. -/
inductive Numberless : Nat → Json → Prop where
  | null {depth : Nat} : Numberless depth .null
  | bool {depth : Nat} {b : Bool} : Numberless depth (.bool b)
  | string {depth : Nat} {s : String} : Numberless depth (.string s)
  | array {depth : Nat} {items : List Json} (inner : ∀ item ∈ items, Numberless depth item) :
      Numberless (depth + 1) (.array items)
  | object {depth : Nat} {fields : List (String × Json)}
      (inner : ∀ field ∈ fields, Numberless depth field.2) : Numberless (depth + 1) (.object fields)

@[simp]
theorem numberless_string {depth : Nat} {s : String} : Numberless depth (.string s) := .string

/-- An array is as deep as its items and one more. -/
@[simp]
theorem numberless_array_iff {depth : Nat} {items : List Json} :
    Numberless (depth + 1) (.array items) ↔ ∀ item ∈ items, Numberless depth item := by
  constructor
  · rintro (_ | _ | _ | inner)
    exact inner
  · exact .array

/-- An object is as deep as its fields and one more. -/
@[simp]
theorem numberless_object_iff {depth : Nat} {fields : List (String × Json)} :
    Numberless (depth + 1) (.object fields) ↔ ∀ field ∈ fields, Numberless depth field.2 := by
  constructor
  · rintro (_ | _ | _ | _ | inner)
    exact inner
  · exact .object

/-- More depth may be allowed. -/
theorem Numberless.mono {depth deeper : Nat} {value : Json} (h : value.Numberless depth)
    (hdepth : depth ≤ deeper) : value.Numberless deeper := by
  induction h generalizing deeper with
  | null => exact .null
  | bool => exact .bool
  | string => exact .string
  | array _ ih =>
    obtain ⟨deeper, rfl⟩ := Nat.exists_eq_succ_of_ne_zero (Nat.ne_zero_of_lt hdepth)
    exact .array fun item hitem => ih item hitem (Nat.le_of_succ_le_succ hdepth)
  | object _ ih =>
    obtain ⟨deeper, rfl⟩ := Nat.exists_eq_succ_of_ne_zero (Nat.ne_zero_of_lt hdepth)
    exact .object fun field hfield => ih field hfield (Nat.le_of_succ_le_succ hdepth)

/-- The value is read from the front of its compact text, whatever follows. Every step uses up half
a character at least. -/
def ReadsBack (depth : Nat) (value : Json) : Prop :=
  ∀ fuel rest, 2 * value.compact.toList.length ≤ fuel →
    ∃ raw, readValue fuel depth (value.compact.toList ++ rest) = some (raw, rest) ∧
      raw.toJson? = some value

variable {depth : Nat} {value : Json}

/-- Nothing is skipped in front of a character that is no space. -/
theorem skipSpace_cons {c : Char} (h : isSpace c = false) (cs : List Char) :
    skipSpace (c :: cs) = c :: cs := by
  rw [skipSpace, List.dropWhile_cons, h]
  rfl

/-- Neither a blank nor a closing bracket starts a written value. -/
theorem Numberless.compact_eq_cons (h : value.Numberless depth) :
    ∃ c cs, value.compact.toList = c :: cs ∧ isSpace c = false ∧ c ≠ ']' := by
  cases h with
  | null => exact ⟨_, _, rfl, by decide, by decide⟩
  | @bool _ b => cases b <;> exact ⟨_, _, rfl, by decide, by decide⟩
  | @string _ s => exact ⟨_, _, toList_quoted s, by decide, by decide⟩
  | @array _ items => exact ⟨'[', _, by simp [compact]; rfl, by decide, by decide⟩
  | @object _ fields => exact ⟨'\x7b', _, by simp [compact]; rfl, by decide, by decide⟩

/-- A value without brackets is read back if its text is read as a scalar. -/
theorem readsBack_of_readScalar {c : Char} {cs : List Char} {raw : RawJson}
    (htext : value.compact.toList = c :: cs) (hspace : isSpace c = false)
    (hbracket : c ∉ ['[', '\x7b']) (hraw : raw.toJson? = some value)
    (hscalar : ∀ rest, readScalar (c :: cs ++ rest) = some (raw, rest)) : value.ReadsBack depth := by
  intro fuel rest hfuel
  rw [htext] at hfuel ⊢
  cases fuel with
  | zero => simp at hfuel
  | succ fuel =>
    simp only [List.mem_cons, List.not_mem_nil, or_false, not_or] at hbracket
    refine ⟨raw, ?_, hraw⟩
    rw [List.cons_append, readValue, skipSpace_cons hspace]
    -- no bracket stands in front, so the reader of scalars is called
    split
    · rename_i heq
      exact absurd (List.cons.inj heq).1 hbracket.1
    · rename_i heq
      exact absurd (List.cons.inj heq).1 hbracket.2
    · exact hscalar rest

/-- A text is read back. -/
theorem readsBack_string (s : String) : (string s).ReadsBack depth := by
  have htext : (string s).compact.toList = '"' :: (s.toList.flatMap escapeChar ++ ['"']) := by
    rw [compact, toList_quoted]
  have hraw : (RawJson.string s).toJson? = some (string s) := rfl
  apply readsBack_of_readScalar htext (by decide) (by decide) hraw
  intro rest
  rw [List.cons_append, List.append_assoc, readScalar]
  simp [readQuoted_escaped, rawOf]

/-- Items between commas are read back up to the closing bracket. -/
theorem readItems_compactItems {items : List Json} (hne : items ≠ [])
    (hitems : ∀ item ∈ items, item.ReadsBack depth) (fuel : Nat) (done : List RawJson) (rest : List Char)
    (hfuel : 2 * (",".intercalate (compactItems items)).toList.length < fuel) :
    ∃ raws, readItems fuel depth done ((",".intercalate (compactItems items)).toList ++ ']' :: rest) =
      some (done.reverse ++ raws, rest) ∧ RawJson.itemsToJson? raws = some items := by
  induction items generalizing fuel done with
  | nil => exact absurd rfl hne
  | cons item items ih =>
    obtain ⟨fuel, rfl⟩ := Nat.exists_eq_succ_of_ne_zero (Nat.ne_zero_of_lt hfuel)
    -- the last item is closed by the bracket, every other by a comma
    rcases items with _ | ⟨next, items⟩
    · simp only [compactItems, String.intercalate_singleton] at hfuel ⊢
      obtain ⟨raw, hraw, hvalue⟩ := hitems item List.mem_cons_self fuel (']' :: rest) (by omega)
      refine ⟨[raw], ?_, by simp [RawJson.itemsToJson?, hvalue]⟩
      rw [readItems, hraw]
      simp [skipSpace_cons (show isSpace ']' = false by decide)]
    · have htext : (",".intercalate (compactItems (item :: next :: items))).toList =
          item.compact.toList ++ ',' :: (",".intercalate (compactItems (next :: items))).toList := by
        simp [compactItems, String.intercalate_cons_cons]
      rw [htext] at hfuel ⊢
      rw [List.length_append, List.length_cons] at hfuel
      obtain ⟨raw, hraw, hvalue⟩ := hitems item List.mem_cons_self fuel
        (',' :: ((",".intercalate (compactItems (next :: items))).toList ++ ']' :: rest)) (by omega)
      obtain ⟨raws, hraws, hvalues⟩ := ih (List.cons_ne_nil _ _)
        (fun item hitem => hitems item (List.mem_cons_of_mem _ hitem)) fuel (raw :: done) (by omega)
      refine ⟨raw :: raws, ?_, by simp [RawJson.itemsToJson?, hvalue, hvalues]⟩
      rw [List.append_assoc, List.cons_append, readItems, hraw]
      simp only [skipSpace_cons (show isSpace ',' = false by decide)]
      rw [hraws]
      simp

/-- A key is read with the colon behind it. -/
theorem readKey_quoted (key : String) (rest : List Char) :
    readKey ((quoted key).toList ++ ':' :: rest) = some (some key, rest) := by
  rw [toList_quoted, List.cons_append, List.append_assoc, readKey, skipSpace_cons (by decide)]
  simp [readQuoted_escaped, skipSpace_cons (show isSpace ':' = false by decide)]

/-- The keys of raw fields that are all readable. -/
def keyed (fields : List (String × RawJson)) : List (Option String × RawJson) :=
  fields.map fun field => (some field.1, field.2)

/-- Fields with readable keys make an object. -/
theorem rawObject_keyed (fields : List (String × RawJson)) :
    rawObject (keyed fields) = .object fields := by
  have hkeys : (keyed fields).mapM (fun field => field.1.map fun key => (key, field.2)) =
      some fields := by
    induction fields with
    | nil => rfl
    | cons field fields ih =>
      unfold keyed at ih ⊢
      simp [ih]
  rw [rawObject, hkeys, rawOf]

/-- Fields between commas are read back up to the closing brace. -/
theorem readFields_compactFields {fields : List (String × Json)} (hne : fields ≠ [])
    (hfields : ∀ field ∈ fields, field.2.ReadsBack depth) (fuel : Nat)
    (done : List (Option String × RawJson)) (rest : List Char)
    (hfuel : 2 * (",".intercalate (compactFields fields)).toList.length < fuel) :
    ∃ raws, readFields fuel depth done
        ((",".intercalate (compactFields fields)).toList ++ '\x7d' :: rest) =
      some (done.reverse ++ keyed raws, rest) ∧ RawJson.fieldsToJson? raws = some fields := by
  induction fields generalizing fuel done with
  | nil => exact absurd rfl hne
  | cons field fields ih =>
    obtain ⟨fuel, rfl⟩ := Nat.exists_eq_succ_of_ne_zero (Nat.ne_zero_of_lt hfuel)
    obtain ⟨key, value⟩ := field
    -- the last field is closed by the brace, every other by a comma
    rcases fields with _ | ⟨next, fields⟩
    · have htext : (",".intercalate (compactFields [(key, value)])).toList =
          (quoted key).toList ++ ':' :: value.compact.toList := by
        simp [compactFields]
      rw [htext] at hfuel ⊢
      rw [List.length_append, List.length_cons] at hfuel
      obtain ⟨raw, hraw, hvalue⟩ := hfields _ List.mem_cons_self fuel ('\x7d' :: rest)
        (by dsimp only; omega)
      refine ⟨[(key, raw)], ?_, by simp [RawJson.fieldsToJson?, hvalue]⟩
      rw [List.append_assoc, List.cons_append, readFields, readKey_quoted]
      simp only [hraw]
      simp [skipSpace_cons (show isSpace '\x7d' = false by decide), keyed]
    · have htext : (",".intercalate (compactFields ((key, value) :: next :: fields))).toList =
          (quoted key).toList ++ ':' :: (value.compact.toList ++
            ',' :: (",".intercalate (compactFields (next :: fields))).toList) := by
        simp [compactFields, String.intercalate_cons_cons]
      rw [htext] at hfuel ⊢
      simp only [List.length_append, List.length_cons] at hfuel
      obtain ⟨raw, hraw, hvalue⟩ := hfields _ List.mem_cons_self fuel
        (',' :: ((",".intercalate (compactFields (next :: fields))).toList ++ '\x7d' :: rest))
        (by dsimp only; omega)
      obtain ⟨raws, hraws, hvalues⟩ := ih (List.cons_ne_nil _ _)
        (fun field hfield => hfields field (List.mem_cons_of_mem _ hfield)) fuel
        ((some key, raw) :: done) (by omega)
      refine ⟨(key, raw) :: raws, ?_, by simp [RawJson.fieldsToJson?, hvalue, hvalues]⟩
      rw [List.append_assoc, List.cons_append, List.append_assoc, List.cons_append, readFields,
        readKey_quoted]
      simp only [hraw, skipSpace_cons (show isSpace ',' = false by decide)]
      rw [hraws]
      simp [keyed]

/-- An array is read back if its items are, one level deeper. -/
theorem readsBack_array {items : List Json} (hinner : ∀ item ∈ items, item.Numberless depth)
    (hitems : ∀ item ∈ items, item.ReadsBack depth) : (array items).ReadsBack (depth + 1) := by
  intro fuel rest hfuel
  have htext : (array items).compact.toList =
      '[' :: ((",".intercalate (compactItems items)).toList ++ [']']) := by
    simp [compact]
  rw [htext] at hfuel ⊢
  simp only [List.length_cons, List.length_append, List.length_nil] at hfuel
  obtain ⟨fuel, rfl⟩ := Nat.exists_eq_succ_of_ne_zero (show fuel ≠ 0 by omega)
  cases items with
  | nil => exact ⟨.array [], rfl, rfl⟩
  | cons item items =>
    obtain ⟨raws, hraws, hvalues⟩ :=
      readItems_compactItems (List.cons_ne_nil _ _) hitems fuel [] rest (by omega)
    refine ⟨.array raws, ?_, by rw [RawJson.toJson?, hvalues]; rfl⟩
    -- the first item starts neither with a blank nor with the closing bracket
    obtain ⟨c, cs, hcons, hspace, hclosing⟩ := (hinner item List.mem_cons_self).compact_eq_cons
    obtain ⟨cs', hcons'⟩ :
        ∃ cs', (",".intercalate (compactItems (item :: items))).toList = c :: cs' := by
      cases items <;> simp [compactItems, String.intercalate_cons_cons, hcons]
    rw [List.cons_append, List.append_assoc, List.singleton_append, readValue,
      skipSpace_cons (by decide)]
    simp only
    rw [hcons'] at hraws ⊢
    simp only [List.cons_append, skipSpace_cons hspace] at hraws ⊢
    split
    · rename_i heq
      exact absurd (List.cons.inj heq).1 hclosing
    · rw [hraws]
      rfl

/-- An object is read back if its fields are, one level deeper. -/
theorem readsBack_object {fields : List (String × Json)}
    (hfields : ∀ field ∈ fields, field.2.ReadsBack depth) : (object fields).ReadsBack (depth + 1) := by
  intro fuel rest hfuel
  have htext : (object fields).compact.toList =
      '\x7b' :: ((",".intercalate (compactFields fields)).toList ++ ['\x7d']) := by
    simp [compact]
  rw [htext] at hfuel ⊢
  simp only [List.length_cons, List.length_append, List.length_nil] at hfuel
  obtain ⟨fuel, rfl⟩ := Nat.exists_eq_succ_of_ne_zero (show fuel ≠ 0 by omega)
  cases fields with
  | nil => exact ⟨.object [], rfl, rfl⟩
  | cons field fields =>
    obtain ⟨raws, hraws, hvalues⟩ :=
      readFields_compactFields (List.cons_ne_nil _ _) hfields fuel [] rest (by omega)
    refine ⟨.object raws, ?_, by rw [RawJson.toJson?, hvalues]; rfl⟩
    -- the first key starts with a quote
    obtain ⟨cs, hcons⟩ :
        ∃ cs, (",".intercalate (compactFields (field :: fields))).toList = '"' :: cs := by
      cases fields <;> simp [compactFields, String.intercalate_cons_cons, toList_quoted]
    rw [List.cons_append, List.append_assoc, List.singleton_append, readValue,
      skipSpace_cons (by decide)]
    simp only
    rw [hcons] at hraws ⊢
    simp only [List.cons_append, skipSpace_cons (show isSpace '"' = false by decide)] at hraws ⊢
    split
    · rename_i heq
      exact absurd (List.cons.inj heq).1 (by decide)
    · rw [hraws, Option.map_some, List.reverse_nil, List.nil_append, rawObject_keyed]

theorem readsBack_null : Json.null.ReadsBack depth := by
  have htext : Json.null.compact.toList = 'n' :: ['u', 'l', 'l'] := by decide
  have hraw : RawJson.null.toJson? = some .null := rfl
  exact readsBack_of_readScalar htext (by decide) (by decide) hraw fun _ => rfl

theorem readsBack_bool (b : Bool) : (bool b).ReadsBack depth := by
  have hraw : (RawJson.bool b).toJson? = some (bool b) := rfl
  cases b with
  | true =>
    have htext : (bool true).compact.toList = 't' :: ['r', 'u', 'e'] := by decide
    exact readsBack_of_readScalar htext (by decide) (by decide) hraw fun _ => rfl
  | false =>
    have htext : (bool false).compact.toList = 'f' :: ['a', 'l', 's', 'e'] := by decide
    exact readsBack_of_readScalar htext (by decide) (by decide) hraw fun _ => rfl

/-- A value without numbers is read back at the depth that it needs. -/
theorem Numberless.readsBack (h : value.Numberless depth) : value.ReadsBack depth := by
  induction h with
  | null => exact readsBack_null
  | bool => exact readsBack_bool _
  | string => exact readsBack_string _
  | array inner ih => exact readsBack_array inner ih
  | object inner ih => exact readsBack_object ih

/-- The compact text of a value without numbers denotes the value, if its brackets are not too deep. -/
theorem Numberless.read_compact (h : value.Numberless depth) (hdepth : depth ≤ maxDepth) :
    read value.compact = some value := by
  have hback := (h.mono hdepth).readsBack
  obtain ⟨raw, hraw, hvalue⟩ := hback (2 * value.compact.toList.length + 2) [] (by omega)
  rw [List.append_nil] at hraw
  have htext : readRaw value.compact = some raw := by
    unfold readRaw
    simp only [hraw]
    rfl
  rw [read, htext, Option.bind_some, hvalue]

end Json

end DocQuery
