import Mathlib.Data.List.Infix
import DocQuery.Proofs.Build.Conditions

namespace DocQuery

/-! # What has been drafted stays

However a draft grows, what is in its clauses stays where it is and new parts come behind it. A
sub-query is drafted apart and comes in as one join with its bindings, so it rewrites nothing
either.

* `JoinStep.prolongs`: joining leaves what is drafted where it is.
* `Grows.prolongs`: and so does everything that a build of conditions does.
-/

open Build

variable {s : Schema}

namespace Draft

variable {d e f : Draft s}

/-- The clauses of the second draft go on where those of the first end. -/
structure Prolongs (d e : Draft s) : Prop where
  select : d.select <+: e.select
  joins : d.joins <+: e.joins
  bindings : d.bindings <+: e.bindings
  order : d.order <+: e.order
  includes : d.includes <+: e.includes

theorem Prolongs.refl (d : Draft s) : d.Prolongs d :=
  ⟨List.prefix_rfl, List.prefix_rfl, List.prefix_rfl, List.prefix_rfl, List.prefix_rfl⟩

theorem Prolongs.trans (h : d.Prolongs e) (h' : e.Prolongs f) : d.Prolongs f where
  select := h.select.trans h'.select
  joins := h.joins.trans h'.joins
  bindings := h.bindings.trans h'.bindings
  order := h.order.trans h'.order
  includes := h.includes.trans h'.includes

theorem Prolongs.withPredicate (h : d.Prolongs e) (tree tree' : Predicate Test) :
    (d.withPredicate tree).Prolongs (e.withPredicate tree') :=
  ⟨h.select, h.joins, h.bindings, h.order, h.includes⟩

theorem prolongs_addSelect (d : Draft s) (item : SelectItem) : d.Prolongs (d.addSelect item) := by
  unfold addSelect
  dsimp only
  split
  · exact .refl d
  · exact { Prolongs.refl d with select := List.prefix_append _ _ }

theorem prolongs_addInclude (d : Draft s) (path : TablePath) : d.Prolongs (d.addInclude path) := by
  unfold addInclude
  split
  · exact .refl d
  · exact { Prolongs.refl d with includes := List.prefix_append _ _ }

theorem prolongs_addOrder {path : TablePath} {a : String} (ha : d.aliasAt? path = some a) (name : String)
    (direction : Direction) : d.Prolongs (d.addOrder path name direction) := by
  have hordered : ∀ (d : Draft s) (item : OrderItem), d.Prolongs { d with order := d.order ++ [item] } :=
    fun d _ => { Prolongs.refl d with order := List.prefix_append _ _ }
  unfold addOrder
  simp only [columnAt, aliasOf_of_some ha]
  split
  · exact hordered _ _
  · exact (prolongs_addSelect d _).trans (hordered _ _)

theorem JoinStep.prolongs (h : JoinStep d e) : d.Prolongs e := by
  cases h with
  | single below found keys => exact { Prolongs.refl d with joins := List.prefix_append _ _ }
  | double below found unnamed =>
    exact { Prolongs.refl d with
      joins := (List.prefix_append _ _).trans (List.prefix_append _ _) }
  | through below found joined named => exact { Prolongs.refl d with }

theorem ClauseStep.prolongs (h : ClauseStep d e) : d.Prolongs e := by
  cases h with
  | bind value => exact { Prolongs.refl d with bindings := List.prefix_append _ _ }
  | select joined named name => exact prolongs_addSelect d _
  | order joined named name direction => exact prolongs_addOrder named name direction
  | load path => exact prolongs_addInclude d path
  | limit n => exact { Prolongs.refl d with }
  | offset n => exact { Prolongs.refl d with }

/-- A draft that grows only gets longer clauses. -/
theorem Grows.prolongs {subqueries : List (Relation s × List (Condition s))}
    (h : Grows subqueries d e) : d.Prolongs e := by
  induction h with
  | refl d => exact .refl d
  | trans _ _ ihFirst ihSecond => exact ihFirst.trans ihSecond
  | join step => exact step.prolongs
  | clause step => exact step.prolongs
  | embed at_table typed named resolved inner spreads tree_eq correlates _ =>
    exact { Prolongs.refl _ with
      joins := List.prefix_append _ _
      bindings := List.prefix_append _ _ }

end Draft

end DocQuery
