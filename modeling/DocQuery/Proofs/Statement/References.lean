import DocQuery.Proofs.Predicate.Leaves
import DocQuery.Proofs.Statement.Scope

namespace DocQuery

/-! # References in statements

A statement is `Scoped` if all that it mentions is in scope: a join mentions, beside the table that
it brings in, only tables that stand before it, and every other clause mentions tables of the
statement. One test of a derived table's statement is exempt: it ties the statement to the one
around it, and mentions a table that stands there before the derived table.
-/

namespace Test

/-- The test asks about columns of the tables known by the aliases. -/
inductive Within (aliases : List String) : Test → Prop where
  | template {template : String} {columns : List QualifiedColumn} {params : List String}
      (known : ∀ c ∈ columns, c.tableAlias ∈ aliases) :
      Within aliases (.template template columns params)

/-- The tests that tie a statement with these aliases to the one around it: none where it stands
alone, one where tables of another stand before it. -/
inductive Ties (aliases : List String) : Option (List String) → List Test → Prop where
  | alone : Ties aliases none []
  | tied {outer : List String} {own parent : QualifiedColumn} (own_known : own.tableAlias ∈ aliases)
      (parent_known : parent.tableAlias ∈ outer) :
      Ties aliases (some outer) [.template "%s = %s" [own, parent] []]

theorem Within.mono {aliases aliases' : List String} {t : Test} (h : t.Within aliases)
    (hsub : aliases ⊆ aliases') : t.Within aliases' := by
  cases h with
  | template known => exact .template fun c hc => hsub (known c hc)

end Test

namespace SelectItem

/-- The entry selects from a table known by one of the aliases. -/
inductive Within (aliases : List String) : SelectItem → Prop where
  | rowsOf {tableAlias : String} (known : tableAlias ∈ aliases) : Within aliases (.rowsOf tableAlias)
  | column {column : QualifiedColumn} (known : column.tableAlias ∈ aliases) :
      Within aliases (.column column)

theorem Within.mono {aliases aliases' : List String} {item : SelectItem} (h : item.Within aliases)
    (hsub : aliases ⊆ aliases') : item.Within aliases' := by
  cases h with
  | rowsOf known => exact .rowsOf (hsub known)
  | column known => exact .column (hsub known)

end SelectItem

mutual

/-- All references of the statement are in scope. Where it is made anew for each row of other
tables, `outer` are their aliases. -/
inductive Statement.Scoped : Option (List String) → Statement → Prop where
  | intro {outer : Option (List String)} {st : Statement} {own ties : List Test}
      (leaves : st.predicate.leaves = own ++ ties) (tests : ∀ t ∈ own, t.Within st.scope)
      (tied : Test.Ties st.scope outer ties) (select : ∀ item ∈ st.select, item.Within st.scope)
      (order : ∀ item ∈ st.order, item.column.tableAlias ∈ st.scope)
      (joins : ∀ before join after, st.joins = before ++ join :: after →
        Join.ScopedAfter (st.baseAlias :: before.map Join.tableAlias) join) :
      Statement.Scoped outer st

/-- The join mentions, beside its own alias, only the earlier ones. -/
inductive Join.ScopedAfter : List String → Join Statement → Prop where
  | table {earlier : List String} {table tableAlias key : String} {left : QualifiedColumn}
      (left_known : left.tableAlias ∈ earlier) :
      Join.ScopedAfter earlier (.table table tableAlias left key)
  | derived {earlier : List String} {tableAlias : String} {inner : Statement}
      (inside : Statement.Scoped (some earlier) inner) :
      Join.ScopedAfter earlier (.derived tableAlias inner)

end

/-- A member of a list with one more at its end is that one, or one before it. -/
theorem split_snoc {α : Type} {front before after : List α} {last x : α}
    (h : front ++ [last] = before ++ x :: after) :
    (before = front ∧ x = last) ∨ ∃ after', front = before ++ x :: after' := by
  rcases List.append_eq_append_iff.1 h with ⟨more, hbefore, hlast⟩ | ⟨more, hfront, hafter⟩
  · -- nothing is left for more than the last member
    cases more with
    | nil =>
      rw [List.nil_append, List.cons.injEq] at hlast
      exact .inl ⟨by rw [hbefore, List.append_nil], hlast.1.symm⟩
    | cons y more => simp at hlast
  · cases more with
    | nil =>
      rw [List.nil_append, List.cons.injEq] at hafter
      exact .inl ⟨by rw [hfront, List.append_nil], hafter.1⟩
    | cons y more =>
      rw [List.cons_append, List.cons.injEq] at hafter
      exact .inr ⟨more, by rw [hfront, hafter.1]⟩

end DocQuery
