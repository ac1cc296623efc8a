import DocQuery.Operand.Basic
import DocQuery.Proofs.Json.Range
import DocQuery.Proofs.Number.Rounding
import Mathlib.Data.List.Forall2

namespace DocQuery

/-! # How exactly values are bound

A value without objects is bound item by item, as it is, up to its numbers: a whole number beyond
the signed words becomes a double, which can only hold every 2048th of these. So what is bound
equals the value exactly if all of its large numbers are such, and it is written as the value was
only if there are none.

* `bound_exactly`: which values are bound, which of them exactly, and which can be read back.
* `bound_rounds_off`: an integer beyond a signed word is bound as a rounded double.
-/

/-- The number that a JSON number stands for. -/
def JsonNumber.toRat : JsonNumber → ℚ
  | int i => i
  | float x => x.toRat

namespace Operand

/-- The number that the operand stands for, if it is one. -/
def toRat? : Operand → Option ℚ
  | int i => some i
  | float x => some x.toRat
  | _ => none

/-- The operand has the structure of the value. Its numbers are those of the value as `same` says. -/
inductive Mirrors (same : JsonNumber → Operand → Prop) : Json → Operand → Prop where
  | null : Mirrors same .null .null
  | bool (b : Bool) : Mirrors same (.bool b) (.bool b)
  | number {n : JsonNumber} {o : Operand} (number : same n o) : Mirrors same (.number n) o
  | string (s : String) : Mirrors same (.string s) (.text s)
  | array {items : List Json} {values : List Operand}
      (each : List.Forall₂ (Mirrors same) items values) : Mirrors same (.array items) (.list values)

/-- How a number is bound: a whole number beyond the signed words is rounded, and every other number
is kept. -/
inductive Bound : JsonNumber → Operand → Prop where
  | whole {i : Int} (fits : i ≤ maxInt) : Bound (.int i) (.int i)
  | rounded {i : Int} {x : Binary64} (large : maxInt < i) (near : x.NearestStep i) :
      Bound (.int i) (.float x)
  | float (x : Binary64) : Bound (.float x) (.float x)

/-! ## Numbers -/

theorem exists_ofNumber {n : JsonNumber} (hword : n.IsWord) :
    ∃ o, ofNumber n = some o ∧ Bound n o := by
  cases n with
  | float x => exact ⟨.float x, rfl, .float x⟩
  | int i =>
    by_cases hfits : i ≤ maxInt
    · exact ⟨.int i, by rw [ofNumber, if_pos hfits], .whole hfits⟩
    · have hlarge : maxInt < i := Int.not_le.1 hfits
      rcases Binary64.exists_ofInt_word hlarge (hword i rfl).2 with ⟨x, hx, hnear⟩
      refine ⟨.float x, ?_, .rounded hlarge hnear⟩
      rw [ofNumber, if_neg hfits, hx, Option.map_some]

/-- A number is bound to an equal one unless it was rounded off. -/
theorem Bound.toRat?_eq_iff {n : JsonNumber} {o : Operand} (h : Bound n o) :
    o.toRat? = some n.toRat ↔ ∀ i, n = .int i → i ≤ maxInt ∨ 2048 ∣ i := by
  cases h with
  | whole fits =>
    refine ⟨fun _ i hi => ?_, fun _ => rfl⟩
    cases hi
    exact .inl fits
  | rounded large near =>
    -- beyond the words a double holds the multiples of 2048 only
    rw [toRat?, JsonNumber.toRat, Option.some.injEq, near.toRat_eq_iff]
    constructor
    · intro hdvd i hi
      cases hi
      exact .inr hdvd
    · intro hall
      rcases hall _ rfl with hfits | hdvd
      · exact absurd hfits (Int.not_le.2 large)
      · exact hdvd
  | float x => exact ⟨fun _ _ hi => (nomatch hi), fun _ => rfl⟩

/-- A number is written as it was if it was not rounded. -/
theorem Bound.toJson_eq_iff {n : JsonNumber} {o : Operand} (h : Bound n o) :
    o.toJson = .number n ↔ ∀ i, n = .int i → i ≤ maxInt := by
  cases h with
  | whole fits =>
    refine ⟨fun _ i hi => ?_, fun _ => by rw [toJson]⟩
    cases hi
    exact fits
  | rounded large near =>
    rw [toJson]
    constructor
    · intro heq
      cases heq
    · intro hall
      exact absurd (hall _ rfl) (Int.not_le.2 large)
  | float x => exact ⟨fun _ _ hi => (nomatch hi), fun _ => by rw [toJson]⟩

/-! ## Values -/

theorem ofItems?_eq_some_iff {items : List Json} {values : List Operand} :
    ofItems? items = some values ↔
      List.Forall₂ (fun item value => ofJson? item = some value) items values := by
  induction items generalizing values with
  | nil =>
    rw [ofItems?, List.forall₂_nil_left_iff, Option.some.injEq, eq_comm]
  | cons item items ih =>
    rw [ofItems?, List.forall₂_cons_left_iff]
    constructor
    · intro h
      split at h
      · rename_i value rest hvalue hrest
        cases h
        exact ⟨value, rest, hvalue, ih.1 hrest, rfl⟩
      · cases h
    · rintro ⟨value, rest, hvalue, hrest, rfl⟩
      rw [hvalue, ih.2 hrest]

theorem ofItems?_eq_none_iff {items : List Json} :
    ofItems? items = none ↔ ∃ item ∈ items, ofJson? item = none := by
  induction items with
  | nil => simp [ofItems?]
  | cons item items ih =>
    rw [ofItems?, List.exists_mem_cons_iff, ← ih]
    cases ofJson? item <;> cases ofItems? items <;> simp

/-- Of word-sized values exactly those with an object in them cannot be bound. -/
theorem ofJson?_eq_none_iff : ∀ {v : Json}, v.WordSized →
    (ofJson? v = none ↔ ∃ fields, v.HasPart (.object fields))
  | .null, _ | .bool _, _ | .string _, _ => by
    rw [ofJson?]
    constructor
    · intro h
      cases h
    · rintro ⟨_, ⟨⟩⟩
  | .number n, h => by
    rcases exists_ofNumber (h n (.self _)) with ⟨o, ho, _⟩
    rw [ofJson?, ho]
    constructor
    · intro hnone
      cases hnone
    · rintro ⟨_, ⟨⟩⟩
  -- an object is the one kind of value that is not bound
  | .object fields, _ => by
    rw [ofJson?]
    exact ⟨fun _ => ⟨fields, .self _⟩, fun _ => rfl⟩
  -- a list is bound exactly if all its items are, so the object may be at any depth
  | .array items, h => by
    have hitems : ∀ item ∈ items, (ofJson? item = none ↔ ∃ fields, item.HasPart (.object fields)) :=
      fun item hmem => ofJson?_eq_none_iff (h.item hmem)
    rw [ofJson?, Option.map_eq_none_iff, ofItems?_eq_none_iff]
    constructor
    · rintro ⟨item, hmem, hnone⟩
      rcases (hitems item hmem).1 hnone with ⟨fields, hpart⟩
      exact ⟨fields, .item hmem hpart⟩
    · rintro ⟨fields, hpart⟩
      cases hpart with
      | item hmem inner => exact ⟨_, hmem, (hitems _ hmem).2 ⟨fields, inner⟩⟩

/-- What a word-sized value is bound as has its structure. -/
theorem mirrors_of_ofJson? : ∀ {v : Json} {o : Operand}, v.WordSized → ofJson? v = some o →
    Mirrors Bound v o
  | .null, _, _, h => by
    cases h
    exact .null
  | .bool b, _, _, h => by
    cases h
    exact .bool b
  | .string t, _, _, h => by
    cases h
    exact .string t
  | .number n, _, hwords, h => by
    rcases exists_ofNumber (hwords n (.self _)) with ⟨o, ho, hbound⟩
    rw [ofJson?, ho] at h
    cases h
    exact .number hbound
  | .object fields, _, _, h => by
    rw [ofJson?] at h
    cases h
  | .array items, _, hwords, h => by
    have hitems : ∀ item ∈ items, ∀ value, ofJson? item = some value → Mirrors Bound item value :=
      fun item hmem value hvalue => mirrors_of_ofJson? (hwords.item hmem) hvalue
    rw [ofJson?, Option.map_eq_some_iff] at h
    rcases h with ⟨values, hvalues, rfl⟩
    rw [ofItems?_eq_some_iff] at hvalues
    -- items and values stand side by side, each value bound for its item
    have hmembers : List.Forall₂ (fun item value => item ∈ items ∧ ofJson? item = some value) items
        values := (List.forall₂_and_left items values).2 ⟨fun _ hmem => hmem, hvalues⟩
    exact .array (hmembers.imp fun item value h => hitems item h.1 value h.2)

/-- Where a property of related items comes down to a condition on the left ones, so it does for
lists. -/
theorem forall₂_iff_forall {α β : Type} {R S : α → β → Prop} {condition : α → Prop} {xs : List α}
    {ys : List β} (hiff : ∀ x ∈ xs, ∀ y, R x y → (S x y ↔ condition x)) (h : List.Forall₂ R xs ys) :
    List.Forall₂ S xs ys ↔ ∀ x ∈ xs, condition x := by
  induction h with
  | nil => simp
  | @cons x y xs ys hfirst _ ih =>
    rw [List.forall₂_cons, List.forall_mem_cons, hiff x List.mem_cons_self y hfirst,
      ih fun x' hx' => hiff x' (List.mem_cons_of_mem _ hx')]

/-- A property of a value and what it is bound as that only depends on the numbers in them. -/
structure Structural (p : Json → Operand → Prop) : Prop where
  null : p .null .null
  bool : ∀ b, p (.bool b) (.bool b)
  string : ∀ s, p (.string s) (.text s)
  array : ∀ items values, p (.array items) (.list values) ↔ List.Forall₂ p items values

/-- Where such a property comes down to a condition on a number, it holds of a value exactly if all
numbers in it meet the condition. -/
theorem Mirrors.iff_forall {same : JsonNumber → Operand → Prop} {condition : JsonNumber → Prop}
    {p : Json → Operand → Prop} (hp : Structural p)
    (hiff : ∀ n o, same n o → (p (.number n) o ↔ condition n)) : ∀ {v : Json} {o : Operand},
    Mirrors same v o → (p v o ↔ ∀ n, v.HasPart (.number n) → condition n)
  | .null, _, .null => by
    refine ⟨?_, fun _ => hp.null⟩
    rintro _ _ ⟨⟩
  | .bool b, _, .bool _ => by
    refine ⟨?_, fun _ => hp.bool b⟩
    rintro _ _ ⟨⟩
  | .string t, _, .string _ => by
    refine ⟨?_, fun _ => hp.string t⟩
    rintro _ _ ⟨⟩
  | .number n, o, .number hsame => by
    rw [hiff n o hsame]
    constructor
    · rintro hcondition _ ⟨⟩
      exact hcondition
    · intro hall
      exact hall n (.self _)
  -- a list is mirrored exactly if its items are, and its numbers are theirs
  | .array items, .list values, .array each => by
    have hitems : ∀ item ∈ items, ∀ value, Mirrors same item value →
        (p item value ↔ ∀ n, item.HasPart (.number n) → condition n) :=
      fun item hmem value hvalue => hvalue.iff_forall hp hiff
    rw [hp.array, forall₂_iff_forall hitems each]
    constructor
    · rintro hall n ⟨⟩
      rename_i hmem inner
      exact hall _ hmem n inner
    · intro hall item hmem n hn
      exact hall n (.item hmem hn)

theorem structural_mirrors (same : JsonNumber → Operand → Prop) : Structural (Mirrors same) := by
  refine ⟨.null, .bool, .string, fun items values => ⟨?_, .array⟩⟩
  rintro ⟨⟩
  assumption

theorem mirrors_number_iff {same : JsonNumber → Operand → Prop} {n : JsonNumber} {o : Operand} :
    Mirrors same (.number n) o ↔ same n o := by
  refine ⟨?_, .number⟩
  rintro ⟨⟩
  assumption

theorem structural_toJson : Structural fun v o => o.toJson = v := by
  refine ⟨by rw [toJson], fun b => by rw [toJson], fun t => by rw [toJson], fun items values => ?_⟩
  rw [toJson, Json.array.injEq]
  induction values generalizing items with
  | nil => rw [itemsToJson, List.forall₂_nil_right_iff, eq_comm]
  | cons value values ih =>
    rw [itemsToJson, List.forall₂_cons_right_iff]
    constructor
    · rintro rfl
      exact ⟨_, _, rfl, (ih _).1 rfl, rfl⟩
    · rintro ⟨item, rest, rfl, hrest, rfl⟩
      rw [(ih rest).2 hrest]

/-- A condition on the whole numbers of a value is one on its numbers. -/
theorem forall_whole_iff {v : Json} {condition : Int → Prop} :
    (∀ n, v.HasPart (.number n) → ∀ i, n = .int i → condition i) ↔
      ∀ i, v.HasPart (.number (.int i)) → condition i := by
  constructor
  · intro hall i hi
    exact hall _ hi i rfl
  · rintro hall _ hn i rfl
    exact hall i hn

/-- A bound value keeps all numbers exactly if those beyond the signed words are multiples of 2048. -/
theorem Mirrors.kept_iff {v : Json} {o : Operand} (h : Mirrors Bound v o) :
    Mirrors (fun n o => o.toRat? = some n.toRat) v o ↔
      ∀ i, v.HasPart (.number (.int i)) → i ≤ maxInt ∨ 2048 ∣ i := by
  rw [← forall_whole_iff]
  exact h.iff_forall (structural_mirrors _) fun n o hbound =>
    mirrors_number_iff.trans hbound.toRat?_eq_iff

/-- A bound value is written as it was exactly if no number is beyond the signed words. -/
theorem Mirrors.written_iff {v : Json} {o : Operand} (h : Mirrors Bound v o) :
    o.toJson = v ↔ ∀ i, v.HasPart (.number (.int i)) → i ≤ maxInt := by
  rw [← forall_whole_iff]
  exact h.iff_forall structural_toJson fun n o hbound => hbound.toJson_eq_iff

/-- A value is bound unless there is an object in it, and then with its structure. All its numbers
are kept exactly if those beyond the signed words are multiples of 2048, and it is written as it was
exactly if there are none beyond the signed words. -/
theorem bound_exactly {v : Json} (hwords : v.WordSized) :
    (ofJson? v = none ↔ ∃ fields, v.HasPart (.object fields)) ∧
      ∀ o, ofJson? v = some o →
        Mirrors Bound v o ∧
          (Mirrors (fun n o => o.toRat? = some n.toRat) v o ↔
            ∀ i, v.HasPart (.number (.int i)) → i ≤ maxInt ∨ 2048 ∣ i) ∧
          (o.toJson = v ↔ ∀ i, v.HasPart (.number (.int i)) → i ≤ maxInt) := by
  refine ⟨ofJson?_eq_none_iff hwords, fun o ho => ?_⟩
  have hmirrors := mirrors_of_ofJson? hwords ho
  exact ⟨hmirrors, hmirrors.kept_iff, hmirrors.written_iff⟩

/-- The numbers of a value that is read are words, so what is read from a text is bound in this way. -/
theorem bound_of_parse {text : String} {v : Json} (h : Json.parse text = some v) :
    (ofJson? v = none ↔ ∃ fields, v.HasPart (.object fields)) ∧
      ∀ o, ofJson? v = some o →
        Mirrors Bound v o ∧
          (Mirrors (fun n o => o.toRat? = some n.toRat) v o ↔
            ∀ i, v.HasPart (.number (.int i)) → i ≤ maxInt ∨ 2048 ∣ i) ∧
          (o.toJson = v ↔ ∀ i, v.HasPart (.number (.int i)) → i ≤ maxInt) := by
  have hwords := Json.parse_wordSized h
  refine ⟨ofJson?_eq_none_iff hwords, fun o ho => ?_⟩
  have hmirrors := mirrors_of_ofJson? hwords ho
  exact ⟨hmirrors, hmirrors.kept_iff, hmirrors.written_iff⟩

/-- A list with a list in it, which holds the least whole number beyond the signed words that is
kept. -/
def nestedWord : Json :=
  .array [.number (.int (-1)), .array [.string "Roe", .number (.int 0x8000000000000000)]]

theorem bound_nestedWord :
    ∃ o, ofJson? nestedWord = some o ∧ Mirrors (fun n o => o.toRat? = some n.toRat) nestedWord o ∧
      o.toJson ≠ nestedWord := by
  have hparts : ∀ n, nestedWord.HasPart (.number n) ↔ n = .int (-1) ∨ n = .int 0x8000000000000000 := by
    intro n
    simp [nestedWord]
  have hwords : nestedWord.WordSized := by
    intro n hn i hi
    subst hi
    rcases (hparts _).1 hn with hi | hi <;> cases hi <;> decide
  rcases bound_exactly hwords with ⟨hnone, hbound⟩
  cases ho : ofJson? nestedWord with
  | none =>
    rcases hnone.1 ho with ⟨fields, hobject⟩
    simp [nestedWord] at hobject
  | some o =>
    rcases hbound o ho with ⟨_, hequal, hwritten⟩
    refine ⟨o, rfl, hequal.2 ?_, fun hsame => ?_⟩
    · intro i hi
      rcases (hparts _).1 hi with hi | hi <;> cases hi <;> decide
    · have hfits := hwritten.1 hsame 0x8000000000000000 ((hparts _).2 (.inr rfl))
      exact absurd hfits (by decide)

/-- The least whole number beyond the signed words that is not kept: it is bound as its predecessor. -/
theorem bound_rounds_off :
    ∃ x, ofJson? (.number (.int 9223372036854775809)) = some (.float x) ∧
      x.toRat = 9223372036854775808 ∧
      ¬Mirrors (fun n o => o.toRat? = some n.toRat) (.number (.int 9223372036854775809)) (.float x) ∧
      (float x).toJson ≠ .number (.int 9223372036854775809) := by
  have hrounded : Binary64.ofInt 9223372036854775809 = some ⟨false, 2 ^ 52, 11⟩ := by decide +kernel
  refine ⟨⟨false, 2 ^ 52, 11⟩, ?_, ?_, ?_, ?_⟩
  · rw [ofJson?, ofNumber, if_neg (by decide), hrounded, Option.map_some]
  · norm_num [Binary64.toRat]
  · rw [mirrors_number_iff, toRat?, JsonNumber.toRat, Option.some.injEq]
    norm_num [Binary64.toRat]
  · rw [toJson]
    intro hsame
    cases hsame

end Operand

end DocQuery
