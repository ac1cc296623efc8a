import DocQuery.Predicate

namespace DocQuery

/-! # Values of trees

The value of a combinator is the joined value of its children, where what has no value is neutral.
Normalizing a tree keeps its value, and so does renaming its tests.

* `evaluate_normalize`: normalizing a tree keeps its value.
-/

namespace Predicate

variable {α β : Type} {truth : α → Bool}

theorem evaluateChildren_append (c : Connective) (xs ys : List (Predicate α)) :
    evaluateChildren truth c (xs ++ ys) =
      c.join (evaluateChildren truth c xs) (evaluateChildren truth c ys) := by
  induction xs with
  | nil => rfl
  | cons x xs ih =>
    rw [List.cons_append, evaluateChildren, ih, ← Connective.join_assoc, evaluateChildren]

/-- A conjunction of two lists of trees is the conjunction of both. -/
theorem evaluate_all_append (xs ys : List (Predicate α)) :
    (all (xs ++ ys)).evaluate truth =
      Connective.and.join ((all xs).evaluate truth) ((all ys).evaluate truth) := by
  rw [all, all, all, evaluate, evaluate, evaluate, evaluateChildren_append]

theorem evaluateChildren_singleton (c : Connective) (x : Predicate α) :
    evaluateChildren truth c [x] = x.evaluate truth := by
  rw [evaluateChildren, evaluateChildren, Connective.join_none_right]

/-- What a normalized child adds to a node has the child's value. -/
theorem evaluateChildren_splice (c : Connective) (p : Predicate α) :
    evaluateChildren truth c (splice c p) = p.evaluate truth := by
  cases p with
  | leaf test => exact evaluateChildren_singleton c _
  | node d children =>
    -- an empty node is neutral, one of the same connective is joined member by member, any other
    -- has its value
    rw [splice]
    split
    · rename_i hempty
      rw [List.isEmpty_iff.1 hempty]
      rfl
    · split
      · rename_i hsame
        rw [hsame, evaluate]
      · exact evaluateChildren_singleton c _

theorem evaluate_collapse (c : Connective) (children : List (Predicate α)) :
    (collapse c children).evaluate truth = evaluateChildren truth c children := by
  unfold collapse
  split
  · exact (evaluateChildren_singleton c _).symm
  · rw [evaluate]

mutual

/-- A tree and its normal form have the same value. -/
theorem evaluate_normalize (truth : α → Bool) (p : Predicate α) :
    p.normalize.evaluate truth = p.evaluate truth := by
  cases p with
  | leaf test => rfl
  | node c children =>
    rw [normalize, evaluate_collapse, evaluateChildren_normalizeChildren truth c children, evaluate]

theorem evaluateChildren_normalizeChildren (truth : α → Bool) (c : Connective)
    (children : List (Predicate α)) :
    evaluateChildren truth c (normalizeChildren c children) = evaluateChildren truth c children := by
  cases children with
  | nil => rfl
  | cons child rest =>
    rw [normalizeChildren, evaluateChildren_append, evaluateChildren_splice,
      evaluate_normalize truth child, evaluateChildren_normalizeChildren truth c rest,
      evaluateChildren]

end

/-- The shape of a tree does not depend on its tests. -/
theorem isEmpty_map (f : α → β) (p : Predicate α) : (p.map f).isEmpty = p.isEmpty := by
  cases p with
  | leaf test => rfl
  | node c children => cases children <;> rfl

theorem isLeaf_map (f : α → β) (p : Predicate α) : (p.map f).isLeaf = p.isLeaf := by
  cases p <;> rfl

theorem connective?_map (f : α → β) (p : Predicate α) : (p.map f).connective? = p.connective? := by
  cases p <;> rfl

theorem mapChildren_eq_map (f : α → β) (children : List (Predicate α)) :
    mapChildren f children = children.map (map f) := by
  induction children with
  | nil => rfl
  | cons child rest ih => rw [mapChildren, ih, List.map_cons]

mutual

/-- Tests can be renamed before or while a tree is evaluated. -/
theorem evaluate_map (f : α → β) (truth : β → Bool) (p : Predicate α) :
    (p.map f).evaluate truth = p.evaluate fun test => truth (f test) := by
  cases p with
  | leaf test => rfl
  | node c children =>
    rw [map, evaluate, evaluateChildren_mapChildren f truth c children, evaluate]

theorem evaluateChildren_mapChildren (f : α → β) (truth : β → Bool) (c : Connective)
    (children : List (Predicate α)) :
    evaluateChildren truth c (mapChildren f children) =
      evaluateChildren (fun test => truth (f test)) c children := by
  cases children with
  | nil => rfl
  | cons child rest =>
    rw [mapChildren, evaluateChildren, evaluate_map f truth child,
      evaluateChildren_mapChildren f truth c rest, evaluateChildren]

end

/-- Pushing trees one after the other onto a combinator appends them to its children. -/
theorem foldl_push (c : Connective) (children trees : List (Predicate α)) :
    trees.foldl push (node c children) = node c (children ++ trees) := by
  induction trees generalizing children with
  | nil => rw [List.foldl_nil, List.append_nil]
  | cons tree trees ih => rw [List.foldl_cons, push, ih, List.append_assoc, List.singleton_append]

end Predicate

end DocQuery
