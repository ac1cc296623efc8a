import DocQuery.Text.WordChar

/-!
# Keys

A key of a query document is made of an optional ordinal (digits and a colon, which only serve to
tell equal keys apart), column paths separated by bars, and an operator. The columns reach to the
last word character of the key, the operator is what remains; a key that ends in a bracket is all
columns.
-/

namespace DocQuery

/-- The parts of a key. -/
structure Key where
  /-- The digits in front of the first colon, when the key starts with them. -/
  ordinal : Option String
  /-- The column paths, each an alternative. -/
  columns : List String
  operator : String
deriving DecidableEq, Repr

namespace Key

/-- The digits of the ordinal, if there is one, and what follows its colon. -/
def takeOrdinal (cs : List Char) : Option (List Char) × List Char :=
  match cs.dropWhile Char.isDigit with
  | ':' :: rest => (some (cs.takeWhile Char.isDigit), rest)
  | _ => (none, cs)

/-- The text up to its last word character, and what follows it. -/
def splitAtLastWord (cs : List Char) : List Char × List Char :=
  let isOther := fun c => !isWordChar c
  ((cs.reverse.dropWhile isOther).reverse, (cs.reverse.takeWhile isOther).reverse)

/-- The parts of a key; `none` if it has no columns. -/
def parse (key : String) : Option Key :=
  let (ordinal, rest) := takeOrdinal key.toList
  let (columns, operator) := splitAtLastWord rest
  let (columns, operator) :=
    if operator.getLast? = some ']' then (rest, []) else (columns, operator)
  if columns.isEmpty then none
  else some ⟨ordinal.map String.ofList, (columns.splitOn '|').map String.ofList, String.ofList operator⟩

/-- The two parts of a split at the last word character make up the text. -/
theorem splitAtLastWord_append (cs : List Char) :
    (splitAtLastWord cs).1 ++ (splitAtLastWord cs).2 = cs := by
  simp only [splitAtLastWord]
  rw [← List.reverse_append, List.takeWhile_append_dropWhile, List.reverse_reverse]

end Key

end DocQuery
