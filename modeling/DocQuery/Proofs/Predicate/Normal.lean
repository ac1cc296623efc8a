import DocQuery.Predicate

namespace DocQuery

/-! # Normal forms

In a normal tree no combinator has one child only, and none has a child that is empty or has its own
connective. Normalizing gives such a tree, so a combinator of a single child is one with its child,
and a conjunction inside a conjunction is one with its members.

* `Normal.collapse_splice`: collapsing what a normal tree is spliced into gives the tree again.
-/

namespace Predicate

variable {α : Type} {c d : Connective} {p q : Predicate α} {children : List (Predicate α)}

/-- No node of the tree can be left out. -/
inductive Normal : Predicate α → Prop where
  | leaf (test : α) : Normal (leaf test)
  | node {c : Connective} {children : List (Predicate α)} (several : children.length ≠ 1)
      (normal : ∀ x ∈ children, Normal x) (filled : ∀ x ∈ children, x.isEmpty = false)
      (other : ∀ x ∈ children, x.connective? ≠ some c) : Normal (node c children)

/-- The tree can be a child of a normal tree with the connective. -/
structure Part (c : Connective) (p : Predicate α) : Prop where
  normal : p.Normal
  filled : p.isEmpty = false
  other : p.connective? ≠ some c

/-- A part of a node is added to it as it is. -/
theorem Part.splice_eq (h : p.Part c) : splice c p = [p] := by
  cases p with
  | leaf test => rfl
  | node d children =>
    have hfilled : ¬children.isEmpty = true := by
      rw [show children.isEmpty = false from h.filled]
      exact Bool.false_ne_true
    have hother : d ≠ c := fun hsame => h.other (congrArg some hsame)
    rw [splice, if_neg hfilled, if_neg hother]

/-- What a normal tree adds to a node are parts of the node. -/
theorem Normal.part_of_mem_splice (h : p.Normal) : ∀ x ∈ splice c p, x.Part c := by
  intro x hx
  cases h with
  | leaf test =>
    rw [splice, List.mem_singleton] at hx
    subst hx
    exact ⟨.leaf test, rfl, fun hnone => by cases hnone⟩
  | @node d children several normal filled other =>
    rw [splice] at hx
    split at hx
    · -- · rename_i an empty node has no members, one of the same connective gives its own, and any
      -- other is kept whole
      cases hx
    · rename_i hfilled
      split at hx
      · rename_i hsame
        subst hsame
        exact ⟨normal x hx, filled x hx, other x hx⟩
      · rename_i hother
        rw [List.mem_singleton] at hx
        subst hx
        exact ⟨.node several normal filled other, by simpa [isEmpty] using hfilled,
          fun hsame => hother (Option.some.inj hsame)⟩

/-- Parts of a node make a normal tree. -/
theorem normal_collapse (h : ∀ x ∈ children, x.Part c) : (collapse c children).Normal := by
  unfold collapse
  split
  · exact (h _ List.mem_cons_self).normal
  · rename_i hseveral
    refine .node (fun hone => ?_) (fun x hx => (h x hx).normal) (fun x hx => (h x hx).filled)
      fun x hx => (h x hx).other
    rcases List.length_eq_one_iff.1 hone with ⟨x, hx⟩
    exact hseveral x hx

theorem normalizeChildren_append (c : Connective) (xs ys : List (Predicate α)) :
    normalizeChildren c (xs ++ ys) = normalizeChildren c xs ++ normalizeChildren c ys := by
  induction xs with
  | nil => rfl
  | cons x xs ih =>
    rw [List.cons_append, normalizeChildren, normalizeChildren, ih, List.append_assoc]

mutual

/-- Normalizing gives a normal tree. -/
theorem normal_normalize (p : Predicate α) : p.normalize.Normal := by
  cases p with
  | leaf test => exact .leaf test
  | node c children =>
    rw [normalize]
    exact normal_collapse (part_of_mem_normalizeChildren c children)

theorem part_of_mem_normalizeChildren (c : Connective) (children : List (Predicate α)) :
    ∀ x ∈ normalizeChildren c children, x.Part c := by
  cases children with
  | nil =>
    intro x hx
    cases hx
  | cons child rest =>
    intro x hx
    rw [normalizeChildren, List.mem_append] at hx
    rcases hx with hx | hx
    · exact (normal_normalize child).part_of_mem_splice x hx
    · exact part_of_mem_normalizeChildren c rest x hx

end

/-- A normalized node of the same connective adds its children. -/
theorem splice_collapse (h : ∀ x ∈ children, x.Part c) : splice c (collapse c children) = children := by
  unfold collapse
  split
  · exact (h _ List.mem_cons_self).splice_eq
  · cases children with
    | nil => rfl
    | cons child rest => rw [splice, if_neg (by simp), if_pos rfl]

/-- A conjunction in a conjunction adds its members, and likewise for disjunctions. -/
theorem normalizeChildren_node (c : Connective) (children : List (Predicate α)) :
    normalizeChildren c [node c children] = normalizeChildren c children := by
  rw [normalizeChildren, normalizeChildren, List.append_nil, normalize,
    splice_collapse (part_of_mem_normalizeChildren c children)]

/-- A normal tree that is not empty is a node of what it adds. -/
theorem Normal.collapse_splice (h : p.Normal) (hfilled : p.isEmpty = false) :
    collapse c (splice c p) = p := by
  cases h with
  | leaf test => rfl
  | @node d children several normal filled other =>
    have hchildren : ¬children.isEmpty = true := by
      rw [show children.isEmpty = false from hfilled]
      exact Bool.false_ne_true
    rw [splice, if_neg hchildren]
    -- a node of the same connective is taken apart and put together again
    by_cases hsame : d = c
    · subst hsame
      rw [if_pos rfl]
      unfold collapse
      split
      · exact absurd rfl several
      · rfl
    · rw [if_neg hsame]
      rfl

/-- A combinator of a single child adds to a node what the child adds. -/
theorem normalizeChildren_single (d c : Connective) (p : Predicate α) :
    normalizeChildren d [node c [p]] = normalizeChildren d [p] := by
  have hsplice : splice d (collapse c (splice c p.normalize)) = splice d p.normalize := by
    cases hempty : p.normalize.isEmpty with
    | false => rw [(normal_normalize p).collapse_splice hempty]
    | true =>
      -- what is empty adds nothing anywhere
      cases hnormal : p.normalize with
      | leaf test =>
        rw [hnormal] at hempty
        cases hempty
      | node e children =>
        rw [hnormal] at hempty
        have hnil : children = [] := List.isEmpty_iff.1 hempty
        subst hnil
        rfl
  simp only [normalizeChildren, List.append_nil, normalize, hsplice]

/-- Trees of the same normal forms add the same to a node. -/
theorem normalizeChildren_congr (c : Connective) {xs ys : List (Predicate α)}
    (h : xs.map normalize = ys.map normalize) : normalizeChildren c xs = normalizeChildren c ys := by
  induction xs generalizing ys with
  | nil =>
    rw [List.map_nil, eq_comm, List.map_eq_nil_iff] at h
    rw [h]
  | cons x xs ih =>
    cases ys with
    | nil => cases h
    | cons y ys =>
      rw [List.map_cons, List.map_cons, List.cons.injEq] at h
      rw [normalizeChildren, normalizeChildren, h.1, ih h.2]

end Predicate

end DocQuery
