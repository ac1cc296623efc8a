import DocQuery.Draft.Join
import DocQuery.Proofs.Mask.Value

namespace DocQuery

/-! # Masked drafts

A masked draft binds masked operands; its text is the same. Each step that a build takes on a draft
is a step on the masked draft, with the same names: no step looks at what is bound.

* `finish_masked`: masking and finishing a draft commute, and so does each step of a draft with
  masking.
-/

/-- The binding without the content of its operand. -/
def Binding.masked (b : Binding) : Binding := (b.1, Operand.masked b.2)

namespace Statement

mutual

/-- The statement, and those in its derived tables, without the content of what they bind. -/
def masked : Statement → Statement
  | ⟨model, baseTable, baseAlias, select, joins, predicate, bindings, order, limit, offset,
      includes⟩ =>
    ⟨model, baseTable, baseAlias, select, maskedJoins joins, predicate,
      bindings.map Binding.masked, order, limit, offset, includes⟩

def maskedJoins : List (Join Statement) → List (Join Statement)
  | [] => []
  | join :: joins => maskedJoin join :: maskedJoins joins

def maskedJoin : Join Statement → Join Statement
  | .table table tableAlias left key => .table table tableAlias left key
  | .derived tableAlias statement => .derived tableAlias statement.masked
  | .derivedText tableAlias sql => .derivedText tableAlias sql

end

theorem maskedJoins_eq_map (joins : List (Join Statement)) :
    maskedJoins joins = joins.map maskedJoin := by
  induction joins with
  | nil => rw [maskedJoins, List.map_nil]
  | cons join joins ih => rw [maskedJoins, ih, List.map_cons]

theorem maskedJoin_table (table tableAlias : String) (left : QualifiedColumn) (key : String) :
    maskedJoin (.table table tableAlias left key) = .table table tableAlias left key := by
  rw [maskedJoin]

end Statement

namespace Draft

variable {s : Schema}

/-- The draft without the content of what it binds. -/
def masked (d : Draft s) : Draft s :=
  { d with
    joins := d.joins.map Statement.maskedJoin
    bindings := d.bindings.map Binding.masked }

/-- The finished statement of a masked draft is the masked statement. -/
theorem finish_masked (d : Draft s) : d.masked.finish = d.finish.masked := by
  rw [finish, finish, Statement.masked, Statement.maskedJoins_eq_map]
  rfl

/-! ## Steps on a draft -/

/-- A masked draft gives the same aliases. -/
theorem aliasOf_masked (d : Draft s) (path : TablePath) :
    d.masked.aliasOf path = ((d.aliasOf path).1, (d.aliasOf path).2.masked) := by
  unfold aliasOf
  rw [show d.masked.aliases = d.aliases from rfl]
  cases d.aliases.lookup path <;> rfl

theorem columnAt_masked (d : Draft s) (path : TablePath) (name : String) :
    d.masked.columnAt path name = ((d.columnAt path name).1, (d.columnAt path name).2.masked) := by
  simp only [columnAt, aliasOf_masked]

/-- A masked value is bound under the name of the value. -/
theorem bind_masked (d : Draft s) (value : Operand) :
    d.masked.bind value.masked = ((d.bind value).1, (d.bind value).2.masked) := by
  have hbindings : (d.bind value).2.masked.bindings =
      d.masked.bindings ++ [((d.bind value).1, value.masked)] := List.map_append
  have hdraft : (d.bind value).2.masked =
      { (d.bind value).2.masked with bindings := (d.bind value).2.masked.bindings } := rfl
  rw [hdraft, hbindings]
  rfl

/-- The masked values are bound under the names of the values. -/
theorem bindAll_masked (d : Draft s) (values : List Operand) :
    d.masked.bindAll (values.map Operand.masked) =
      ((d.bindAll values).1, (d.bindAll values).2.masked) := by
  induction values generalizing d with
  | nil => rfl
  | cons value values ih => simp only [List.map_cons, bindAll, bind_masked, ih]

theorem addSelect_masked (d : Draft s) (item : SelectItem) :
    d.masked.addSelect item = (d.addSelect item).masked := by
  unfold addSelect
  simp only
  rw [apply_ite masked]
  rfl

/-- An order on a masked draft names the same columns. -/
theorem addOrder_masked (d : Draft s) (path : TablePath) (name : String) (direction : Direction) :
    d.masked.addOrder path name direction = (d.addOrder path name direction).masked := by
  unfold addOrder
  simp only [columnAt_masked]
  generalize d.columnAt path name = r
  rcases r with ⟨column, e⟩
  by_cases hbase : path = e.base
  · simp only [if_pos hbase, if_pos (show path = e.masked.base from hbase)]
    rfl
  · simp only [if_neg hbase, if_neg (show ¬path = e.masked.base from hbase), addSelect_masked]
    rfl

theorem addInclude_masked (d : Draft s) (path : TablePath) :
    d.masked.addInclude path = (d.addInclude path).masked := by
  unfold addInclude
  rw [apply_ite masked]
  rfl

/-- A masked join is a join of the masked draft. -/
theorem addJoin_masked (d : Draft s) (join : Join Statement) :
    d.masked.addJoin (Statement.maskedJoin join) = (d.addJoin join).masked := by
  unfold addJoin masked
  simp only [List.map_append, List.map_cons, List.map_nil]

/-- A derived table finds the same free path. -/
theorem derivedPath_masked (d : Draft s) (table : TablePath) (relation : String) :
    d.masked.derivedPath table relation = d.derivedPath table relation := rfl

/-- A sub-query of a masked draft starts masked. -/
theorem openNested_masked (d : Draft s) (model : Model s) (place : TablePath) :
    d.masked.openNested model place =
      ((d.openNested model place).1.masked, (d.openNested model place).2.masked) := by
  unfold openNested
  simp only [aliasOf_masked]
  rfl

/-- What a sub-query hands back to its parent is masked with it. -/
theorem absorb_masked (d sub : Draft s) : d.masked.absorb sub.masked = (d.absorb sub).masked := by
  unfold absorb masked
  simp only [List.map_append]

/-- The masked sub-query is joined where the sub-query is. -/
theorem joinDerived_masked (d : Draft s) (path : TablePath) (model : Model s)
    (derived : String → Join Statement) :
    d.masked.joinDerived path model (fun tableAlias => Statement.maskedJoin (derived tableAlias)) =
      (d.joinDerived path model derived).masked := by
  unfold joinDerived
  rw [apply_ite masked]
  simp only [aliasOf_masked, addJoin_masked]
  rfl

end Draft

end DocQuery
