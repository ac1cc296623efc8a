/-!
# Fresh aliases

Aliases are unique in a query and no longer than the database admits. A wanted text that fits and is
free is taken as it is; otherwise its head and a counter are, the least counter that gives a free
alias.
-/

namespace DocQuery

namespace FreshAlias

/-- The longest run of whole characters at the start that takes up at most `room` bytes. -/
def takeBytes : Nat → List Char → List Char
  | _, [] => []
  | room, c :: rest =>
    if c.utf8Size ≤ room then c :: takeBytes (room - c.utf8Size) rest else []

/-- The counter at the end of an alias. -/
def suffix (n : Nat) : String := "_" ++ toString n

/-- The alias with counter `n`: as much of the wanted text as leaves room for the counter. -/
def candidate (maxLength : Nat) (wanted : String) (n : Nat) : String :=
  String.ofList (takeBytes (maxLength - (suffix n).utf8ByteSize) wanted.toList) ++ suffix n

/-- The least counter from 1 on whose alias is free. Among one more counters than there are used
aliases there is always one. -/
def counter (maxLength : Nat) (used : List String) (wanted : String) : Nat :=
  ((List.range' 1 (used.length + 1)).find? fun n =>
    !used.contains (candidate maxLength wanted n)).getD 0

end FreshAlias

/-- An alias for the wanted text that is not among the used ones. -/
def freshAlias (maxLength : Nat) (used : List String) (wanted : String) : String :=
  if wanted.utf8ByteSize ≤ maxLength ∧ wanted ∉ used then wanted
  else FreshAlias.candidate maxLength wanted (FreshAlias.counter maxLength used wanted)

end DocQuery
