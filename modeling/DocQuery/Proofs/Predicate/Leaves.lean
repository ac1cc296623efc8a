import DocQuery.Predicate

namespace DocQuery

/-! # Tests of trees

Flattening a tree keeps its tests and their order.

* `leaves_normalize`: a normalized tree has the same tests, in the same order.
* `evaluate_congr`: the value of a tree depends on the truth of its own tests only.
-/

namespace Predicate

variable {α : Type}

theorem childLeaves_append (xs ys : List (Predicate α)) :
    childLeaves (xs ++ ys) = childLeaves xs ++ childLeaves ys := by
  induction xs with
  | nil => rfl
  | cons x xs ih => rw [List.cons_append, childLeaves, childLeaves, ih, List.append_assoc]

theorem childLeaves_singleton (p : Predicate α) : childLeaves [p] = p.leaves := by
  simp [childLeaves]

theorem leaves_all (children : List (Predicate α)) : (all children).leaves = childLeaves children := by
  rw [all, leaves]

theorem leaves_of_isEmpty (p : Predicate α) (h : p.isEmpty = true) : p.leaves = [] := by
  cases p with
  | leaf test => cases h
  | node c children => rw [leaves, List.isEmpty_iff.1 h, childLeaves]

/-- What a normalized child adds to a node has the child's tests. -/
theorem childLeaves_splice (c : Connective) (p : Predicate α) :
    childLeaves (splice c p) = p.leaves := by
  cases p with
  | leaf test => exact childLeaves_singleton _
  | node d children =>
    rw [splice]
    split
    · rename_i hempty
      rw [List.isEmpty_iff.1 hempty]
      rfl
    · split
      · rw [leaves]
      · exact childLeaves_singleton _

theorem leaves_collapse (c : Connective) (children : List (Predicate α)) :
    (collapse c children).leaves = childLeaves children := by
  unfold collapse
  split
  · exact (childLeaves_singleton _).symm
  · rw [leaves]

mutual

/-- A tree and its normal form have the same tests in the same order. -/
theorem leaves_normalize (p : Predicate α) : p.normalize.leaves = p.leaves := by
  cases p with
  | leaf test => rfl
  | node c children =>
    rw [normalize, leaves_collapse, childLeaves_normalizeChildren c children, leaves]

theorem childLeaves_normalizeChildren (c : Connective) (children : List (Predicate α)) :
    childLeaves (normalizeChildren c children) = childLeaves children := by
  cases children with
  | nil => rfl
  | cons child rest =>
    rw [normalizeChildren, childLeaves_append, childLeaves_splice, leaves_normalize child,
      childLeaves_normalizeChildren c rest, childLeaves]

end

mutual

theorem leaves_map {β : Type} (f : α → β) (p : Predicate α) : (p.map f).leaves = p.leaves.map f := by
  cases p with
  | leaf test => rfl
  | node c children => rw [map, leaves, leaves, childLeaves_mapChildren f children]

theorem childLeaves_mapChildren {β : Type} (f : α → β) (children : List (Predicate α)) :
    childLeaves (mapChildren f children) = (childLeaves children).map f := by
  cases children with
  | nil => rfl
  | cons child rest =>
    rw [mapChildren, childLeaves, childLeaves, leaves_map f child, childLeaves_mapChildren f rest,
      List.map_append]

end

mutual

/-- The value of a tree depends on its tests only. -/
theorem evaluate_congr {truth truth' : α → Bool} (p : Predicate α)
    (h : ∀ test ∈ p.leaves, truth test = truth' test) : p.evaluate truth = p.evaluate truth' := by
  cases p with
  | leaf test => rw [evaluate, evaluate, h test (by simp [leaves])]
  | node c children => exact evaluateChildren_congr c children h

theorem evaluateChildren_congr {truth truth' : α → Bool} (c : Connective)
    (children : List (Predicate α)) (h : ∀ test ∈ childLeaves children, truth test = truth' test) :
    evaluateChildren truth c children = evaluateChildren truth' c children := by
  cases children with
  | nil => rfl
  | cons child rest =>
    rw [childLeaves] at h
    rw [evaluateChildren, evaluateChildren,
      evaluate_congr child fun test htest => h test (List.mem_append_left _ htest),
      evaluateChildren_congr c rest fun test htest => h test (List.mem_append_right _ htest)]

end

/-- The tests of a tree with one more child. -/
theorem leaves_push (p child : Predicate α) : (p.push child).leaves = p.leaves ++ child.leaves := by
  cases p with
  | leaf test => simp [push, all, leaves, childLeaves]
  | node c children => rw [push, leaves, leaves, childLeaves_append, childLeaves_singleton]

end Predicate

end DocQuery
