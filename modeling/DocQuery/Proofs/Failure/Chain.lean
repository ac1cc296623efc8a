import DocQuery.Error

namespace DocQuery

/-! # Chains of failures

A failure inside nested documents is its root cause with a wrapper for each document around it. What
a client is given of the outermost failure holds what it would be given of each failure inside.

* `wrap_wrappers`: an error is its cause, wrapped with the documents around it.
* `followExceptions_data`: following the data of an error inwards reaches the data of each error
  inside.
* `records_inner`: each of these records the document that it was wrapped with.
-/

namespace Error

/-- The documents around the root cause, outermost first, each with the name of its model. -/
def wrappers : Error → List (Json × String)
  | nested query model source => (query, model) :: source.wrappers
  | _ => []

/-- A cause inside documents, outermost first. -/
def wrap (documents : List (Json × String)) (cause : Error) : Error :=
  documents.foldr (fun document e => .nested document.1 document.2 e) cause

/-- The failure inside the `n` outermost documents, or the root cause if there are not so many. -/
def inner : Nat → Error → Error
  | n + 1, nested _ _ source => source.inner n
  | _, e => e

@[simp]
theorem wrap_nil (e : Error) : wrap [] e = e := rfl

@[simp]
theorem wrap_cons (document : Json × String) (documents : List (Json × String)) (e : Error) :
    wrap (document :: documents) e = .nested document.1 document.2 (wrap documents e) := rfl

theorem wrappers_wrap (documents : List (Json × String)) (e : Error) :
    (wrap documents e).wrappers = documents ++ e.wrappers := by
  induction documents with
  | nil => rfl
  | cons document documents ih => rw [wrap_cons, wrappers, ih, List.cons_append]

theorem rootCause_wrap (documents : List (Json × String)) (e : Error) :
    (wrap documents e).rootCause = e.rootCause := by
  induction documents with
  | nil => rfl
  | cons document documents ih => rw [wrap_cons, rootCause, ih]

/-- A failure is its root cause inside its wrappers. -/
theorem wrap_wrappers (e : Error) : wrap e.wrappers e.rootCause = e := by
  induction e with
  | nested query model source ih => rw [wrappers, rootCause, wrap_cons, ih]
  | _ => rfl

theorem rootCause_of_wrappers {e : Error} (h : e.wrappers = []) : e.rootCause = e := by
  have hwrap := wrap_wrappers e
  rw [h, wrap_nil] at hwrap
  exact hwrap

theorem inner_zero (e : Error) : e.inner 0 = e := by
  cases e <;> rfl

end Error

/-! ## Data -/

namespace Json

/-- What an error's data tells of the failure inside. -/
def exception? (data : Json) (field : String) : Option Json :=
  (data.get? "exception").bind fun exception => exception.get? field

/-- The data reached when the data of the failure inside is taken `n` times. -/
def followExceptions : Nat → Json → Option Json
  | 0, data => some data
  | n + 1, data => (data.exception? "data").bind (followExceptions n)

/-- The data is of a failure in a document, and tells which failure that is. -/
structure Records (data : Json) (document : Json × String) (source : Error) : Prop where
  query : data.get? "query" = some document.1
  model : data.get? "model" = some (.string document.2)
  kind : data.exception? "kind" = some (.string source.kind)
  message : data.exception? "message" = some (.string source.message)
  data : data.exception? "data" = some source.data

end Json

namespace Error

theorem records_nested (query : Json) (model : String) (source : Error) :
    (nested query model source).data.Records (query, model) source :=
  ⟨rfl, rfl, rfl, rfl, rfl⟩

/-- The data of each failure inside is reached in as many steps as there are documents around it. -/
theorem followExceptions_data {e : Error} {n : Nat} (h : n ≤ e.wrappers.length) :
    e.data.followExceptions n = some (e.inner n).data := by
  induction n generalizing e with
  | zero => rw [Json.followExceptions, inner_zero]
  | succ n ih =>
    cases e with
    | nested query model source =>
      have hsource : n ≤ source.wrappers.length := Nat.le_of_succ_le_succ h
      rw [Json.followExceptions, (records_nested query model source).data, Option.bind_some, inner]
      exact ih hsource
    | _ => cases h

/-- Inside all its documents stands the root cause. -/
theorem inner_wrappers_length (e : Error) : e.inner e.wrappers.length = e.rootCause := by
  induction e with
  | nested query model source ih => rw [wrappers, List.length_cons, inner, rootCause, ih]
  | _ => rfl

/-- Inside fewer documents than there are, the next document and the failure inside it are
recorded. -/
theorem records_inner {e : Error} {n : Nat} (h : n < e.wrappers.length) :
    (e.inner n).data.Records e.wrappers[n] (e.inner (n + 1)) := by
  induction n generalizing e with
  | zero =>
    cases e with
    | nested query model source =>
      rw [inner_zero, inner, inner_zero]
      exact records_nested query model source
    | _ => cases h
  | succ n ih =>
    cases e with
    | nested query model source =>
      have hsource : n < source.wrappers.length := Nat.lt_of_succ_lt_succ h
      exact ih hsource
    | _ => cases h

end Error

end DocQuery
