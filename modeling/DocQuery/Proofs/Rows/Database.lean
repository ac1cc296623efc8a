import DocQuery.Draft.Join
import DocQuery.Proofs.Predicate.Evaluate
import Mathlib.Logic.Function.Basic

namespace DocQuery

/-! # Rows

What joined tables and a WHERE clause make of the rows of a database. An assignment says which row
each alias stands for. A table join extends an assignment by a row of its table, one extension for
each row that meets the join's equation; a statement selects the rows of its base table from which
its joins can be made so that the WHERE clause is met. Derived tables have no meaning here.

* `relates_single_iff`: the rows that one table join relates to a row.
* `relates_double_iff`: the rows that a join over a join table relates to it.
* `selects_double_iff`: the rows that a correlated statement with a join table selects.
-/

/-- A row: the value of each column, or none where it is NULL. -/
abbrev Row (ν : Type) := String → Option ν

/-- The rows of each table. -/
structure Database (ν : Type) where
  rows : String → List (Row ν)

/-- The row that each alias stands for. -/
abbrev Assignment (ν : Type) := String → Option (Row ν)

variable {ν : Type}

namespace Assignment

/-- The alias stands for the row from now on. -/
def put (rows : Assignment ν) (tableAlias : String) (row : Row ν) : Assignment ν :=
  Function.update rows tableAlias (some row)

/-- The value of a column. -/
def value (rows : Assignment ν) (column : QualifiedColumn) : Option ν :=
  (rows column.tableAlias).bind fun row => row column.column

variable {rows : Assignment ν} {tableAlias : String} {row : Row ν}

@[simp] theorem put_self : rows.put tableAlias row tableAlias = some row :=
  Function.update_self _ _ _

theorem put_of_ne {other : String} (h : other ≠ tableAlias) :
    rows.put tableAlias row other = rows other :=
  Function.update_of_ne h _ _

theorem value_of_eq_some (h : rows tableAlias = some row) (column : String) :
    rows.value ⟨tableAlias, column⟩ = row column := by
  rw [value, h]
  rfl

end Assignment

section Equality

variable [DecidableEq ν]

/-- Equality of values. NULL is equal to nothing, not even to NULL. -/
def equalValues : Option ν → Option ν → Bool
  | some x, some y => x = y
  | _, _ => false

theorem equalValues_comm (x y : Option ν) : equalValues x y = equalValues y x := by
  cases x <;> cases y <;> simp [equalValues, eq_comm]

/-- An equation of two columns holds if their values are equal; `other` decides all other tests. -/
def Test.holds (other : Test → Bool) (rows : Assignment ν) : Test → Bool
  | .template "%s = %s" [left, right] [] => equalValues (rows.value left) (rows.value right)
  | test => other test

theorem evaluate_equalColumns (other : Test → Bool) (rows : Assignment ν)
    (left right : QualifiedColumn) :
    (Draft.equalColumns left right).evaluate (Test.holds other rows) =
      some (equalValues (rows.value left) (rows.value right)) := rfl

namespace Database

variable {db : Database ν} {joins : List (Join Statement)} {rows final : Assignment ν}

/-- The joins can be made with the rows of `final`, one after the other. -/
inductive Extends (db : Database ν) : List (Join Statement) → Assignment ν → Assignment ν → Prop where
  | nil (rows : Assignment ν) : Extends db [] rows rows
  | cons {table tableAlias key : String} {left : QualifiedColumn} {joins : List (Join Statement)}
      {rows final : Assignment ν} {row : Row ν} (mem : row ∈ db.rows table)
      (equation : equalValues ((rows.put tableAlias row).value left)
        ((rows.put tableAlias row).value ⟨tableAlias, key⟩) = true)
      (rest : Extends db joins (rows.put tableAlias row) final) :
      Extends db (.table table tableAlias left key :: joins) rows final

/-- The joins relate the row, as that of the alias, to the rows that are there. -/
def Relates (db : Database ν) (joins : List (Join Statement)) (rows : Assignment ν)
    (tableAlias : String) (row : Row ν) : Prop :=
  ∃ final, db.Extends joins rows final ∧ final tableAlias = some row

/-- The statement selects the row of its base table, among the rows that are there. A WHERE clause
without tests is met. -/
def Selects (db : Database ν) (other : Test → Bool) (rows : Assignment ν) (statement : Statement)
    (row : Row ν) : Prop :=
  row ∈ db.rows statement.baseTable ∧ ∃ final,
    db.Extends statement.joins (rows.put statement.baseAlias row) final ∧
      statement.predicate.evaluate (Test.holds other final) ≠ some false

theorem extends_nil_iff : db.Extends [] rows final ↔ final = rows := by
  constructor
  · intro h
    cases h
    rfl
  · rintro rfl
    exact .nil _

theorem extends_cons_iff {table tableAlias key : String} {left : QualifiedColumn} :
    db.Extends (.table table tableAlias left key :: joins) rows final ↔
      ∃ row ∈ db.rows table, equalValues ((rows.put tableAlias row).value left) (row key) = true ∧
        db.Extends joins (rows.put tableAlias row) final := by
  constructor
  · intro h
    cases h with
    | cons mem equation rest =>
      rw [Assignment.value_of_eq_some Assignment.put_self] at equation
      exact ⟨_, mem, equation, rest⟩
  · rintro ⟨row, mem, equation, rest⟩
    refine .cons mem ?_ rest
    rw [Assignment.value_of_eq_some Assignment.put_self]
    exact equation

/-- One join relates the rows that meet its equation. -/
theorem relates_single_iff {table a b leftKey key : String} {row t : Row ν}
    (hrow : rows a = some row)
    (hne : a ≠ b) : db.Relates [.table table b ⟨a, leftKey⟩ key] rows b t ↔
      t ∈ db.rows table ∧ equalValues (row leftKey) (t key) = true := by
  have hleft : ∀ t, (rows.put b t).value ⟨a, leftKey⟩ = row leftKey := fun t =>
    Assignment.value_of_eq_some ((Assignment.put_of_ne hne).trans hrow) _
  -- the equation reads the row of the owner, whose alias the join does not touch
  simp only [Relates, extends_cons_iff, extends_nil_iff, hleft]
  constructor
  · rintro ⟨_, ⟨t', hmem, heq, rfl⟩, ht⟩
    cases Option.some.inj (Assignment.put_self.symm.trans ht)
    exact ⟨hmem, heq⟩
  · rintro ⟨hmem, heq⟩
    exact ⟨_, ⟨t, hmem, heq, rfl⟩, Assignment.put_self⟩

/-- A join over a join table relates the rows that one of its rows ties together. -/
theorem relates_double_iff {joinTable table a j b leftKey joinKey associationKey key : String}
    {row t : Row ν} (hrow : rows a = some row) (hjoin : a ≠ j) (htable : j ≠ b) :
    db.Relates
        [.table joinTable j ⟨a, leftKey⟩ joinKey, .table table b ⟨j, associationKey⟩ key] rows b t ↔
      t ∈ db.rows table ∧ ∃ link ∈ db.rows joinTable,
        equalValues (row leftKey) (link joinKey) = true ∧
          equalValues (link associationKey) (t key) = true := by
  have hleft : ∀ link, (rows.put j link).value ⟨a, leftKey⟩ = row leftKey := fun link =>
    Assignment.value_of_eq_some ((Assignment.put_of_ne hjoin).trans hrow) _
  have hlink : ∀ link t, ((rows.put j link).put b t).value ⟨j, associationKey⟩ = link associationKey :=
    fun link t =>
      Assignment.value_of_eq_some ((Assignment.put_of_ne htable).trans Assignment.put_self) _
  -- the second equation reads the row of the join table instead
  simp only [Relates, extends_cons_iff, extends_nil_iff, hleft, hlink]
  constructor
  · rintro ⟨_, ⟨link, hlinkMem, hlinkEq, t', hmem, heq, rfl⟩, ht⟩
    cases Option.some.inj (Assignment.put_self.symm.trans ht)
    exact ⟨hmem, link, hlinkMem, hlinkEq, heq⟩
  · rintro ⟨hmem, link, hlinkMem, hlinkEq, heq⟩
    exact ⟨_, ⟨link, hlinkMem, hlinkEq, t, hmem, heq, rfl⟩, Assignment.put_self⟩

/-! ## What drafts select -/

variable {s : Schema} {d : Draft s} {other : Test → Bool} {row t : Row ν} {a leftKey key : String}

/-- What a draft selects can be read off the draft. -/
theorem selects_finish_iff :
    db.Selects other rows d.finish t ↔ t ∈ db.rows d.model.table ∧ ∃ final,
      db.Extends d.joins (rows.put d.baseAlias t) final ∧
        d.predicate.evaluate (Test.holds other final) ≠ some false := by
  simp only [Selects, Draft.finish, Predicate.evaluate_normalize]

/-- With an equation as its only test, the draft selects the rows that meet it. -/
theorem selects_equalColumns_iff {left right : QualifiedColumn} (untested : d.predicate = .all []) :
    db.Selects other rows (d.pushWhere (Draft.equalColumns left right)).finish t ↔
      t ∈ db.rows d.model.table ∧ ∃ final, db.Extends d.joins (rows.put d.baseAlias t) final ∧
        equalValues (final.value left) (final.value right) = true := by
  have hvalue : ∀ final : Assignment ν,
      (d.pushWhere (Draft.equalColumns left right)).predicate.evaluate (Test.holds other final) =
        some (equalValues (final.value left) (final.value right)) := fun final => by
    show (d.predicate.push _).evaluate _ = _
    rw [untested, Predicate.all, Predicate.push, Predicate.evaluate, List.nil_append,
      Predicate.evaluateChildren_singleton, evaluate_equalColumns]
  simp only [selects_finish_iff, hvalue, ne_eq, Option.some.injEq, Bool.not_eq_false]
  rfl

/-- Without joins these are the rows that meet an equation with an outer row. -/
theorem selects_single_iff (untested : d.predicate = .all []) (unjoined : d.joins = [])
    (hrow : rows a = some row) (hne : a ≠ d.baseAlias) :
    db.Selects other rows
        (d.pushWhere (Draft.equalColumns ⟨d.baseAlias, key⟩ ⟨a, leftKey⟩)).finish t ↔
      t ∈ db.rows d.model.table ∧ equalValues (row leftKey) (t key) = true := by
  have hbase : (rows.put d.baseAlias t).value ⟨d.baseAlias, key⟩ = t key :=
    Assignment.value_of_eq_some Assignment.put_self _
  have houter : (rows.put d.baseAlias t).value ⟨a, leftKey⟩ = row leftKey :=
    Assignment.value_of_eq_some ((Assignment.put_of_ne hne).trans hrow) _
  simp only [selects_equalColumns_iff untested, unjoined, extends_nil_iff, exists_eq_left, hbase, houter,
    equalValues_comm (t key)]

/-- With a join table these are the rows that one of its rows ties to an outer row. -/
theorem selects_double_iff {joinTable j baseKey joinKey associationKey : String}
    (untested : d.predicate = .all [])
    (joined : d.joins = [.table joinTable j ⟨d.baseAlias, baseKey⟩ associationKey])
    (hrow : rows a = some row) (hne : a ≠ d.baseAlias) (hjoin : a ≠ j) (hbase : d.baseAlias ≠ j) :
    db.Selects other rows
        (d.pushWhere (Draft.equalColumns ⟨j, joinKey⟩ ⟨a, leftKey⟩)).finish t ↔
      t ∈ db.rows d.model.table ∧ ∃ link ∈ db.rows joinTable,
        equalValues (row leftKey) (link joinKey) = true ∧
          equalValues (link associationKey) (t baseKey) = true := by
  have hleft : ∀ link, ((rows.put d.baseAlias t).put j link).value ⟨d.baseAlias, baseKey⟩ = t baseKey :=
    fun link => Assignment.value_of_eq_some ((Assignment.put_of_ne hbase).trans Assignment.put_self) _
  have hlink : ∀ link, ((rows.put d.baseAlias t).put j link).value ⟨j, joinKey⟩ = link joinKey :=
    fun link => Assignment.value_of_eq_some Assignment.put_self _
  -- the alias of the row around is neither that of the base table nor that of the join table
  have houter : ∀ link, ((rows.put d.baseAlias t).put j link).value ⟨a, leftKey⟩ = row leftKey :=
    fun link => Assignment.value_of_eq_some
      ((Assignment.put_of_ne hjoin).trans ((Assignment.put_of_ne hne).trans hrow)) _
  simp only [selects_equalColumns_iff untested, joined, extends_cons_iff, extends_nil_iff, hleft]
  -- the two equations are those of the join, with their sides exchanged
  refine and_congr_right fun _ => ?_
  constructor
  · rintro ⟨_, ⟨link, hmem, htarget, rfl⟩, howner⟩
    rw [hlink, houter, equalValues_comm] at howner
    rw [equalValues_comm] at htarget
    exact ⟨link, hmem, howner, htarget⟩
  · rintro ⟨link, hmem, howner, htarget⟩
    rw [equalValues_comm] at htarget
    refine ⟨_, ⟨link, hmem, htarget, rfl⟩, ?_⟩
    rw [hlink, houter, equalValues_comm]
    exact howner

end Database

end Equality

end DocQuery
