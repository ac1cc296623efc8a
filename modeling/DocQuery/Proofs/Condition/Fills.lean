import DocQuery.Condition.Build
import DocQuery.Proofs.Condition.Worded

namespace DocQuery

/-! # Filled templates

The tests of a condition's tree ask about its columns, and every parameter is in one of them. What
may be bound to the parameters depends on the tests: a list only where a column is tested against
it.

* `fills_eachColumn`: every parameter of a template is in a test of some column.
-/

variable {allowed : Operand → Prop}

/-- The test asks whether one column is in one list. -/
def Test.IsMembership (t : Test) : Prop :=
  ∃ template ∈ Template.memberships, ∃ column param, t = .template template [column] [param]

/-- The tests ask about the columns, and each parameter is in one of them. Its values are of the
given kind one by one, unless they are a list for tests against a list. -/
structure Fills (allowed : Operand → Prop) (columns : List QualifiedColumn) (params : List String)
    (values : List Operand) (tests : List Test) : Prop where
  shape : ∀ t ∈ tests, ∃ template cs ps, t = .template template cs ps ∧
    Template.Fits template (cs.length + ps.length) ∧ (∀ c ∈ cs, c ∈ columns) ∧
    ∀ param ∈ ps, param ∈ params
  used : ∀ param ∈ params, ∃ t ∈ tests, param ∈ t.params
  kept : (∀ v ∈ values, allowed v) ∨ ∃ items, values = [.list items] ∧ items ≠ [] ∧
    (∀ item ∈ items, allowed item) ∧ ∀ t ∈ tests, t.IsMembership

namespace Condition

open Predicate

variable {template : String} {columns : List QualifiedColumn} {params : List String}
  {values : List Operand}

theorem childLeaves_map_leaf {α β : Type} (f : β → α) (xs : List β) :
    childLeaves (xs.map fun x => Predicate.leaf (f x)) = xs.map f := by
  induction xs with
  | nil => rfl
  | cons x xs ih => rw [List.map_cons, childLeaves, ih, List.map_cons, leaves, List.singleton_append]

/-- Each value is compared with each column. -/
theorem leaves_comparisonTree (template : String) (columns : List QualifiedColumn)
    (params : List String) : (comparisonTree template columns params).leaves =
      params.flatMap fun param => columns.map fun column => .template template [column] [param] := by
  -- each operand with each column, operand by operand
  have hany : ∀ columns : List QualifiedColumn,
      (Predicate.all (params.map fun param => .any (columns.map fun column =>
        testOf template [column] [param]))).leaves =
      params.flatMap fun param => columns.map fun column => .template template [column] [param] := by
    intro columns
    rw [Predicate.all, leaves]
    induction params with
    | nil => rfl
    | cons param params ih =>
      rw [List.map_cons, childLeaves, ih, List.flatMap_cons, any, leaves]
      exact congrArg (· ++ _) (childLeaves_map_leaf _ columns)
  unfold comparisonTree
  split
  · rename_i column
    rw [any, leaves]
    have hmap := childLeaves_map_leaf (fun param => Test.template template [column] [param]) params
    exact hmap.trans List.map_eq_flatMap
  · exact hany columns

theorem fills_comparison (hfits : Template.Fits template 2) (hcolumns : columns ≠ [])
    (hvalues : ∀ v ∈ values, allowed v) :
    Fills allowed columns params values (comparisonTree template columns params).leaves := by
  rw [leaves_comparisonTree]
  refine ⟨fun t ht => ?_, fun param hparam => ?_, .inl hvalues⟩
  · rcases List.mem_flatMap.1 ht with ⟨param, hparam, ht⟩
    rcases List.mem_map.1 ht with ⟨column, hcolumn, rfl⟩
    exact ⟨template, [column], [param], rfl, hfits, by simpa using hcolumn, by simpa using hparam⟩
  · rcases List.exists_mem_of_ne_nil _ hcolumns with ⟨column, hcolumn⟩
    exact ⟨_, List.mem_flatMap.2 ⟨param, hparam, List.mem_map.2 ⟨column, hcolumn, rfl⟩⟩,
      List.mem_singleton_self _⟩

theorem childLeaves_eachColumn (template : String) (columns : List QualifiedColumn)
    (params : List String) : childLeaves (eachColumn template columns params) =
      columns.map fun column => .template template [column] params :=
  childLeaves_map_leaf _ columns

theorem fills_eachColumn {n : Nat} (hfits : Template.Fits template (n + 1)) (hlength : params.length = n)
    (hcolumns : columns ≠ [] ∨ n = 0)
    (hkept : (∀ v ∈ values, allowed v) ∨ ∃ items, values = [.list items] ∧ items ≠ [] ∧
      (∀ item ∈ items, allowed item) ∧ template ∈ Template.memberships ∧ n = 1) :
    Fills allowed columns params values (childLeaves (eachColumn template columns params)) := by
  rw [childLeaves_eachColumn]
  refine ⟨fun t ht => ?_, fun param hparam => ?_, ?_⟩
  · rcases List.mem_map.1 ht with ⟨column, hcolumn, rfl⟩
    refine ⟨template, [column], params, rfl, ?_, by simpa using hcolumn, fun _ h => h⟩
    rw [List.length_singleton, hlength, Nat.add_comm]
    exact hfits
  · have hne : columns ≠ [] := by
      rcases hcolumns with hne | rfl
      · exact hne
      · rw [List.length_eq_zero_iff.1 hlength] at hparam
        cases hparam
    rcases List.exists_mem_of_ne_nil _ hne with ⟨column, hcolumn⟩
    exact ⟨_, List.mem_map.2 ⟨column, hcolumn, rfl⟩, hparam⟩
  · -- a list is bound to the one parameter of a membership test
    refine hkept.imp_right ?_
    rintro ⟨items, hlist, hsome, hitems, hmember, rfl⟩
    refine ⟨items, hlist, hsome, hitems, fun t ht => ?_⟩
    rcases List.mem_map.1 ht with ⟨column, _, rfl⟩
    rcases List.length_eq_one_iff.1 hlength with ⟨param, rfl⟩
    exact ⟨template, hmember, column, param, rfl⟩

/-- Tests on pairs ask about two of the columns. -/
theorem exists_of_mem_eachPair {t : Test} (ht : t ∈ childLeaves (eachPair template params columns)) :
    ∃ first ∈ columns, ∃ second ∈ columns, t = .template template [first, second] params := by
  fun_induction eachPair template params columns with
  | case1 => cases ht
  -- a column without a partner is paired with itself
  | case2 column =>
    have heq : t = .template template [column, column] params := by
      simpa [childLeaves, testOf, leaves] using ht
    exact ⟨column, List.mem_cons_self, column, List.mem_cons_self, heq⟩
  | case3 first second columns ih =>
    rw [childLeaves, testOf, leaves] at ht
    rcases List.mem_append.1 ht with ht | ht
    · exact ⟨first, List.mem_cons_self, second, List.mem_cons_of_mem _ List.mem_cons_self,
        List.mem_singleton.1 ht⟩
    · rcases ih ht with ⟨a, ha, b, hb, heq⟩
      exact ⟨a, List.mem_cons_of_mem _ (List.mem_cons_of_mem _ ha), b,
        List.mem_cons_of_mem _ (List.mem_cons_of_mem _ hb), heq⟩

theorem fills_eachPair (hfits : Template.Fits template 4) (hlength : params.length = 2)
    (hcolumns : columns ≠ []) (hvalues : ∀ v ∈ values, allowed v) :
    Fills allowed columns params values (childLeaves (eachPair template params columns)) := by
  refine ⟨fun t ht => ?_, fun param hparam => ?_, .inl hvalues⟩
  · rcases exists_of_mem_eachPair ht with ⟨first, hfirst, second, hsecond, rfl⟩
    refine ⟨template, [first, second], params, rfl, ?_, by simp [hfirst, hsecond], fun _ h => h⟩
    rw [hlength]
    exact hfits
  · -- the first pair has all parameters
    cases columns with
    | nil => exact absurd rfl hcolumns
    | cons first columns =>
      cases columns with
      | nil => exact ⟨_, List.mem_singleton_self _, hparam⟩
      | cons second columns => exact ⟨_, List.mem_cons_self, hparam⟩

end Condition

end DocQuery
