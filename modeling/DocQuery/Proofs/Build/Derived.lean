import DocQuery.Proofs.Build.Blind

namespace DocQuery

/-! # Runs that embed sub-queries

A sub-query is built in a draft of its own, tied to its parent by one more test in its WHERE clause,
and embedded finished. So what it makes of the parent's draft depends on its WHERE clause in normal
form only.
-/

open Build Draft

variable {s : Schema}

namespace Condition

variable {table : TablePath} {d e : Draft s}

/-- The test does not depend on the WHERE clause that it goes into. -/
theorem blind_correlation (relation : Relation s) (parentAlias : String) :
    Blind (correlation relation parentAlias) := by
  unfold correlation
  refine blind_get (fun _ _ => rfl) fun d => ?_
  -- correlating looks up aliases and joins a table, and none of that reads the predicate
  cases relation with
  | through name owner definition first second => exact blind_throw _
  | direct name owner definition link target =>
    cases link with
    | hasMany foreignKey => exact (blind_columnAt _ _).bind fun _ => blind_pure _
    | belongsTo foreignKey => exact (blind_columnAt _ _).bind fun _ => blind_pure _
    | manyToMany joinTable foreignKey associationKey =>
      refine (blind_aliasOf _).bind fun _ => blind_get (fun _ _ => rfl) fun _ => ?_
      exact (blind_addJoin _).bind fun _ => (blind_modify fun _ _ => rfl).bind fun _ => blind_pure _
    | unknown kind => exact blind_throw _

theorem finish_withPredicate {p q : Predicate Test} (h : p.normalize = q.normalize) (d : Draft s) :
    (d.withPredicate p).finish = (d.withPredicate q).finish := by
  unfold finish withPredicate
  simp only [h]

/-- What is embedded is the finished sub-query. -/
theorem embed_withPredicate {p q : Predicate Test} (h : p.normalize = q.normalize) (d : Draft s)
    (place : TablePath) (model : Model s) (done : Draft s) :
    d.embed place model (done.withPredicate p) = d.embed place model (done.withPredicate q) := by
  have htaken : ∀ p, d.takeOver place model (done.withPredicate p) = d.takeOver place model done :=
    fun _ => rfl
  unfold Draft.embed
  rw [htaken, htaken, finish_withPredicate h]

end Condition

end DocQuery
