import DocQuery.Proofs.Positional.Expand

namespace DocQuery

/-! # Reading a positional statement back

A statement with its values inlined is a text in which values stand for themselves. It comes from
the plan, whose text names parameters; it also comes from a positional statement, whose marks are
read back and filled with the values that were returned with it.

* `readMarks_index`: a mark is read as the index that it was written with.
* `fillQuestions_list`: the marks of a list are filled with its values, in their order.
-/

/-- A part of a statement whose values are inlined. -/
inductive Item where
  | char (c : Char)
  | value (v : Operand)

/-- Values with commas between. -/
def listedItems (values : List Operand) : List Item :=
  [Item.char ',', .char ' '].intercalate (values.map fun v => [.value v])

theorem listedItems_cons_cons (v next : Operand) (values : List Operand) :
    listedItems (v :: next :: values)
      = .value v :: .char ',' :: .char ' ' :: listedItems (next :: values) := rfl

/-- The statement with every parameter replaced by the single values that it stands for. -/
def Plan.inlined (p : Plan) : List Item :=
  PositionalQuery.substitute .char
    (fun name => (p.binding? name).map fun value => listedItems value.elements) p.toSql.toList

namespace PositionalQuery

/-- A part of a statement with marks `$1`, `$2` and so on. -/
inductive Mark where
  | char (c : Char)
  | index (k : Nat)

/-- The part behind a dollar sign: the longest run of digits is the index, if there is one. -/
def readMark (part : List Char) : List Mark :=
  if part.takeWhile Char.isDigit = [] then .char '$' :: part.map .char
  else
    .index (Nat.ofDigitChars 10 (part.takeWhile Char.isDigit) 0)
      :: (part.dropWhile Char.isDigit).map .char

/-- The marks of a statement and the text between them. -/
def readMarks (text : List Char) : List Mark := expandAt '$' .char readMark text

/-- The value at an index, counted from one. -/
def fillMark (values : List Operand) : Mark → Option Item
  | .char c => some (.char c)
  | .index 0 => none
  | .index (k + 1) => values[k]?.map .value

/-- The statement with the values put in the places of the question marks from left to right. -/
def fillQuestions : List Operand → List Char → List (Option Item)
  | _, [] => []
  | values, c :: rest =>
    if c = '?' then values.head?.map .value :: fillQuestions values.tail rest
    else some (.char c) :: fillQuestions values rest

/-! ## Reading the marks of one parameter -/

section Read

variable {text rest : List Char} {values : List Operand}

theorem readMarks_cons {c : Char} (hc : c ≠ '$') (text : List Char) :
    readMarks (c :: text) = .char c :: readMarks text :=
  expandAt_cons_of_ne hc text

/-- A mark is read back, unless a digit follows it. -/
theorem readMarks_index (k : Nat) (hrest : ∀ c, rest.head? = some c → c.isDigit = false) :
    readMarks (("$" ++ toString k).toList ++ rest) = .index k :: readMarks rest := by
  have hdigits : ∀ c ∈ Nat.toDigits 10 k, c.isDigit = true :=
    fun c hc => Nat.isDigit_of_mem_toDigits (by decide) (by decide) hc
  have hmark : ("$" ++ toString k).toList = '$' :: Nat.toDigits 10 k := by
    simp [Nat.toString_eq_repr, Nat.toList_repr]
  rw [hmark, List.cons_append]
  change _ = [Mark.index k] ++ readMarks rest
  refine expandAt_marker_append ?_ fun front hfront => ?_
  · rintro c hc rfl
    exact absurd (hdigits _ hc) (by decide)
  · -- the digits end where the text behind the mark starts
    rcases takeWhile_run hdigits fun c hc => hrest c (hfront c hc) with ⟨htake, hdrop⟩
    simp [readMark, htake, hdrop, Nat.toDigits_ne_nil]

/-- The marks with the given indices, with commas between. -/
def listedMarks (indices : List Nat) : List Mark :=
  [Mark.char ',', .char ' '].intercalate (indices.map fun k => [.index k])

theorem listedMarks_cons_cons (k next : Nat) (indices : List Nat) :
    listedMarks (k :: next :: indices)
      = .index k :: .char ',' :: .char ' ' :: listedMarks (next :: indices) := rfl

/-- The marks of a list are read back one by one: a comma or the text behind ends each of them. -/
theorem readMarks_list (hrest : ∀ c, rest.head? = some c → c.isDigit = false) :
    ∀ indices : List Nat,
      readMarks ((", ".intercalate (indices.map fun k => "$" ++ toString k)).toList ++ rest)
        = listedMarks indices ++ readMarks rest
  | [] => rfl
  | [k] => by simpa [listedMarks] using readMarks_index k hrest
  | k :: next :: indices => by
    have ih := readMarks_list hrest (next :: indices)
    simp only [String.toList_intercalate, List.map_cons, List.intercalate_cons_cons,
      List.append_assoc] at ih ⊢
    have hcomma : ∀ more : List Char,
        readMarks (',' :: ' ' :: more) = .char ',' :: .char ' ' :: readMarks more := by
      intro more
      rw [readMarks_cons (by decide), readMarks_cons (by decide)]
    rw [readMarks_index k (by rintro c ⟨⟩; decide), listedMarks_cons_cons]
    refine congrArg (Mark.index k :: ·) ((hcomma _).trans ?_)
    exact congrArg (fun marks => Mark.char ',' :: .char ' ' :: marks) ih

end Read

/-! ## Filling the marks of one parameter -/

section Fill

variable {values : List Operand}

/-- Marks are filled with the values that lie at their indices. -/
theorem map_fillMark_listedMarks : ∀ (elements : List Operand) (k : Nat),
    elements <+: values.drop k →
      (listedMarks (List.range' (k + 1) elements.length)).map (fillMark values)
        = (listedItems elements).map some
  | [], _, _ => rfl
  | v :: rest, k, h => by
    rcases h with ⟨behind, hbehind⟩
    have hv : values[k]? = some v := by
      rw [← List.head?_drop, ← hbehind]
      rfl
    have hrest : rest <+: values.drop (k + 1) := by
      refine ⟨behind, ?_⟩
      rw [← List.tail_drop, ← hbehind]
      rfl
    have ih := map_fillMark_listedMarks rest (k + 1) hrest
    -- a comma is written between two marks, and between two values
    cases rest with
    | nil => simp [listedMarks, listedItems, fillMark, hv]
    | cons next rest =>
      simp only [List.length_cons, List.range'_succ] at ih ⊢
      rw [listedMarks_cons_cons, listedItems_cons_cons, List.map_cons, List.map_cons, List.map_cons,
        ih]
      simp [fillMark, hv]

/-- Question marks are filled with the values in front. -/
theorem fillQuestions_list (values : List Operand) (text : List Char) :
    ∀ elements : List Operand,
      fillQuestions (elements ++ values)
          ((", ".intercalate (elements.map fun _ => "?")).toList ++ text)
        = (listedItems elements).map some ++ fillQuestions values text
  | [] => rfl
  | [v] => by simp [fillQuestions, listedItems]
  | v :: next :: elements => by
    have ih := fillQuestions_list values text (next :: elements)
    simp only [String.toList_intercalate, List.map_cons, List.intercalate_cons_cons,
      List.append_assoc] at ih ⊢
    rw [listedItems_cons_cons]
    exact congrArg (fun items => some (Item.value v) :: some (.char ',') :: some (.char ' ') :: items) ih

end Fill

end PositionalQuery

end DocQuery
