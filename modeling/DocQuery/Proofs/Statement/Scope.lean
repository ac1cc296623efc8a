import DocQuery.Statement.Basic
import Mathlib.Data.List.Nodup

namespace DocQuery

/-! # Aliases in statements

A statement introduces the alias of its base table and those of its joins; derived tables hold
statements with aliases of their own. `Statement.Distinct` says that no alias is introduced twice
where both could be meant.

* `introduces_snoc`: which aliases one more join introduces.
* `distinct_snoc`: when they are still distinct.
-/

namespace Statement

/-- The aliases that the statement introduces itself. -/
def scope (st : Statement) : List String := st.baseAlias :: st.joins.map Join.tableAlias

/-- The statement introduces the alias, itself or inside one of its derived tables. -/
inductive Introduces : Statement → String → Prop where
  | here {st : Statement} {a : String} (own : a ∈ st.scope) : Introduces st a
  | inside {st inner : Statement} {tableAlias a : String}
      (joined : .derived tableAlias inner ∈ st.joins) (introduced : Introduces inner a) :
      Introduces st a

/-- In this statement and in all inside it the aliases are pairwise distinct, and none that is
introduced further inside is one of them. -/
inductive Distinct : Statement → Prop where
  | intro {st : Statement} (nodup : st.scope.Nodup)
      (inner : ∀ tableAlias inner, .derived tableAlias inner ∈ st.joins → Distinct inner)
      (apart : ∀ tableAlias inner a, .derived tableAlias inner ∈ st.joins → Introduces inner a →
        a ∉ st.scope) :
      Distinct st

variable {st st' : Statement}

/-- Only the base alias and the joins matter. -/
theorem scope_congr (hbase : st'.baseAlias = st.baseAlias) (hjoins : st'.joins = st.joins) :
    st'.scope = st.scope := by
  rw [scope, scope, hbase, hjoins]

theorem introduces_congr (hbase : st'.baseAlias = st.baseAlias) (hjoins : st'.joins = st.joins)
    (a : String) : st'.Introduces a ↔ st.Introduces a := by
  have hscope := scope_congr hbase hjoins
  constructor
  · rintro (hown | ⟨hjoined, hinner⟩)
    · exact .here (hscope ▸ hown)
    · exact .inside (hjoins ▸ hjoined) hinner
  · rintro (hown | ⟨hjoined, hinner⟩)
    · exact .here (hscope ▸ hown)
    · exact .inside (hjoins ▸ hjoined) hinner

theorem Distinct.congr (hbase : st'.baseAlias = st.baseAlias) (hjoins : st'.joins = st.joins)
    (h : st.Distinct) : st'.Distinct := by
  have hscope := scope_congr hbase hjoins
  cases h with
  | intro nodup inner apart =>
    refine .intro (hscope ▸ nodup) ?_ ?_
    · rw [hjoins]
      exact inner
    · rw [hjoins, hscope]
      exact apart

theorem distinct_congr (hbase : st'.baseAlias = st.baseAlias) (hjoins : st'.joins = st.joins) :
    st'.Distinct ↔ st.Distinct :=
  ⟨Distinct.congr hbase.symm hjoins.symm, Distinct.congr hbase hjoins⟩

/-! ## One more join -/

variable {join : Join Statement}

theorem scope_snoc (hbase : st'.baseAlias = st.baseAlias) (hjoins : st'.joins = st.joins ++ [join]) :
    st'.scope = st.scope ++ [join.tableAlias] := by
  rw [scope, scope, hbase, hjoins, List.map_append, List.map_singleton, List.cons_append]

theorem introduces_snoc (hbase : st'.baseAlias = st.baseAlias)
    (hjoins : st'.joins = st.joins ++ [join]) (a : String) :
    st'.Introduces a ↔ st.Introduces a ∨ a = join.tableAlias ∨
      ∃ tableAlias inner, join = .derived tableAlias inner ∧ inner.Introduces a := by
  have hscope := scope_snoc hbase hjoins
  -- an alias of the statement, that of the join, or one inside a derived table
  constructor
  · rintro (hown | ⟨hjoined, hinner⟩)
    · rw [hscope, List.mem_append, List.mem_singleton] at hown
      rcases hown with hown | rfl
      · exact .inl (.here hown)
      · exact .inr (.inl rfl)
    · rw [hjoins, List.mem_append, List.mem_singleton] at hjoined
      rcases hjoined with hjoined | hjoined
      · exact .inl (.inside hjoined hinner)
      · exact .inr (.inr ⟨_, _, hjoined.symm, hinner⟩)
  · rintro ((hown | ⟨hjoined, hinner⟩) | rfl | ⟨tableAlias, inner, rfl, hinner⟩)
    · exact .here (hscope ▸ List.mem_append_left _ hown)
    · exact .inside (hjoins ▸ List.mem_append_left _ hjoined) hinner
    · exact .here (hscope ▸ List.mem_append_right _ (List.mem_singleton_self _))
    · exact .inside (hjoins ▸ List.mem_append_right _ (List.mem_singleton_self _)) hinner

/-- One more join keeps the aliases distinct exactly if its own is new and those inside it are
distinct and none of those here. -/
theorem distinct_snoc (hbase : st'.baseAlias = st.baseAlias)
    (hjoins : st'.joins = st.joins ++ [join]) :
    st'.Distinct ↔ st.Distinct ∧ ¬st.Introduces join.tableAlias ∧
      ∀ tableAlias inner, join = .derived tableAlias inner →
        inner.Distinct ∧ ∀ a, inner.Introduces a → a ∉ st.scope ∧ a ≠ join.tableAlias := by
  have hscope := scope_snoc hbase hjoins
  constructor
  · rintro ⟨nodup, hinner, apart⟩
    rw [hscope] at nodup apart
    rw [hjoins] at hinner apart
    -- the earlier aliases are apart from the last one and from those inside it
    rcases List.nodup_append'.1 nodup with ⟨hnodup, _, hdisjoint⟩
    have hold : ∀ j ∈ st.joins, j ∈ st.joins ++ [join] := fun j hj => List.mem_append_left _ hj
    refine ⟨.intro hnodup (fun t inner hj => hinner t inner (hold _ hj)) ?_, ?_, ?_⟩
    · intro t inner a hj ha hown
      exact apart t inner a (hold _ hj) ha (List.mem_append_left _ hown)
    · rintro (hown | ⟨hj, ha⟩)
      · exact hdisjoint hown (List.mem_singleton_self _)
      · exact apart _ _ _ (hold _ hj) ha (List.mem_append_right _ (List.mem_singleton_self _))
    · rintro t inner rfl
      have hlast : .derived t inner ∈ st.joins ++ [.derived t inner] :=
        List.mem_append_right _ (List.mem_singleton_self _)
      refine ⟨hinner t inner hlast, fun a ha => ?_⟩
      have hnot := apart t inner a hlast ha
      rw [List.mem_append, List.mem_singleton, not_or] at hnot
      exact hnot
  · rintro ⟨⟨nodup, hinner, apart⟩, hnew, hjoin⟩
    refine .intro ?_ ?_ ?_
    · rw [hscope, List.nodup_append']
      refine ⟨nodup, List.nodup_singleton _, ?_⟩
      intro a ha hlast
      rw [List.mem_singleton] at hlast
      exact hnew (.here (hlast ▸ ha))
    · intro t inner hj
      rw [hjoins, List.mem_append, List.mem_singleton] at hj
      rcases hj with hj | hj
      · exact hinner t inner hj
      · exact (hjoin t inner hj.symm).1
    · intro t inner a hj ha
      rw [hjoins, List.mem_append, List.mem_singleton] at hj
      rw [hscope, List.mem_append, List.mem_singleton, not_or]
      rcases hj with hj | hj
      · refine ⟨apart t inner a hj ha, ?_⟩
        rintro rfl
        exact hnew (.inside hj ha)
      · exact (hjoin t inner hj.symm).2 a ha

/-- A statement without joins introduces one alias. -/
theorem distinct_of_joins_nil (hjoins : st.joins = []) : st.Distinct := by
  refine .intro ?_ ?_ ?_
  · simp [scope, hjoins]
  · intro t inner hj
    rw [hjoins] at hj
    cases hj
  · intro t inner a hj
    rw [hjoins] at hj
    cases hj

theorem introduces_of_joins_nil (hjoins : st.joins = []) (a : String) :
    st.Introduces a ↔ a = st.baseAlias := by
  constructor
  · rintro (hown | ⟨hj, _⟩)
    · simpa [scope, hjoins] using hown
    · rw [hjoins] at hj
      cases hj
  · rintro rfl
    exact .here List.mem_cons_self

end Statement

end DocQuery
