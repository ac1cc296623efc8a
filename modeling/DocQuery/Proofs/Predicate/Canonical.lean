import DocQuery.Proofs.Predicate.Evaluate
import DocQuery.Proofs.Predicate.Leaves
import DocQuery.Proofs.Predicate.Normal

namespace DocQuery

/-! # Canonical trees

A normal tree stays as it is when it is normalized, so normalizing twice is normalizing once. What
it looks like can be read off its nodes: unless it is a test or says nothing, each of its
combinators joins two or more children, and no child could have been left out or merged.

* `normalize_is_canonical`: what normalizing keeps, and what a normalized tree looks like.
-/

namespace Predicate

variable {α : Type} {c : Connective} {p : Predicate α} {children : List (Predicate α)}

mutual

/-- The nodes of the tree, its root first. -/
def subtrees : Predicate α → List (Predicate α)
  | leaf test => [leaf test]
  | node c children => node c children :: childSubtrees children

def childSubtrees : List (Predicate α) → List (Predicate α)
  | [] => []
  | child :: rest => child.subtrees ++ childSubtrees rest

end

theorem mem_childSubtrees (p : Predicate α) (children : List (Predicate α)) :
    p ∈ childSubtrees children ↔ ∃ child ∈ children, p ∈ child.subtrees := by
  induction children with
  | nil => simp [childSubtrees]
  | cons child rest ih => simp [childSubtrees, ih]

/-- The nodes of a normal tree are normal. -/
theorem Normal.of_mem_subtrees (h : p.Normal) : ∀ q ∈ p.subtrees, q.Normal := by
  induction h with
  | leaf test =>
    intro q hq
    rw [subtrees, List.mem_singleton] at hq
    subst hq
    exact .leaf test
  | @node c children several normal filled other ih =>
    intro q hq
    rw [subtrees, List.mem_cons, mem_childSubtrees] at hq
    rcases hq with rfl | ⟨child, hchild, hq⟩
    · exact .node several normal filled other
    · exact ih child hchild q hq

/-- The nodes below a child of a normal tree have something to say. -/
theorem Normal.filled_of_mem_subtrees (h : p.Normal) (hfilled : p.isEmpty = false) :
    ∀ q ∈ p.subtrees, q.isEmpty = false := by
  induction h with
  | leaf test =>
    intro q hq
    rw [subtrees, List.mem_singleton] at hq
    subst hq
    rfl
  | @node c children several normal filled other ih =>
    intro q hq
    rw [subtrees, List.mem_cons, mem_childSubtrees] at hq
    rcases hq with rfl | ⟨child, hchild, hq⟩
    · exact hfilled
    · -- no node of a normal tree has an empty child
      exact ih child hchild (filled child hchild) q hq

/-- A combinator of a normal tree that says something joins two or more children. -/
theorem Normal.two_le_length (h : (Predicate.node c children).Normal)
    (hfilled : (Predicate.node c children).isEmpty = false) : 2 ≤ children.length := by
  cases h with
  | node several normal filled other =>
    have hpos : children.length ≠ 0 := by
      intro hzero
      rw [isEmpty, List.length_eq_zero_iff.1 hzero] at hfilled
      cases hfilled
    omega

/-- Parts of a node are taken over unchanged once each is its own normal form. -/
theorem normalizeChildren_of_parts (h : ∀ x ∈ children, x.Part c)
    (hfixed : ∀ x ∈ children, x.normalize = x) : normalizeChildren c children = children := by
  induction children with
  | nil => rfl
  | cons child rest ih =>
    rw [normalizeChildren, hfixed child List.mem_cons_self, (h child List.mem_cons_self).splice_eq,
      ih (fun x hx => h x (List.mem_cons_of_mem _ hx)) fun x hx => hfixed x (List.mem_cons_of_mem _ hx),
      List.singleton_append]

/-- A normal tree is its own normal form. -/
theorem Normal.normalize_eq (h : p.Normal) : p.normalize = p := by
  induction h with
  | leaf test => rfl
  | @node c children several normal filled other ih =>
    have hparts : ∀ x ∈ children, x.Part c := fun x hx => ⟨normal x hx, filled x hx, other x hx⟩
    rw [normalize, normalizeChildren_of_parts hparts ih]
    unfold collapse
    split
    · exact absurd rfl several
    · rfl

/-- A normal tree without tests is a combinator without children. -/
theorem Normal.isEmpty_iff (h : p.Normal) : p.isEmpty = true ↔ p.leaves = [] := by
  refine ⟨leaves_of_isEmpty p, fun hnone => ?_⟩
  induction h with
  | leaf test => cases hnone
  | @node c children several normal filled other ih =>
    cases children with
    | nil => rfl
    | cons child rest =>
      -- a first child would be empty by induction, and no child is
      rw [leaves, childLeaves, List.append_eq_nil_iff] at hnone
      have hempty := ih child List.mem_cons_self hnone.1
      rw [filled child List.mem_cons_self] at hempty
      cases hempty

/-- Renaming the tests of a normal tree gives a normal tree. -/
theorem Normal.map {β : Type} (f : α → β) (h : p.Normal) : (p.map f).Normal := by
  induction h with
  | leaf test => exact .leaf (f test)
  | @node c children several normal filled other ih =>
    rw [Predicate.map, mapChildren_eq_map]
    refine .node (by rwa [List.length_map]) ?_ ?_ ?_
    · simpa using ih
    · simpa [isEmpty_map] using filled
    · simpa [connective?_map] using other

theorem params_normalize (p : Predicate Fragment) : p.normalize.params = p.params := by
  rw [params, leaves_normalize, params]

/-- Normalizing gives a canonical tree with the value, the tests and the parameters of the tree it
is given, and does nothing to a canonical one. -/
theorem normalize_is_canonical (p : Predicate Fragment) :
    (∀ truth, p.normalize.evaluate truth = p.evaluate truth) ∧
      (p.normalize.isLeaf = true ∨ p.normalize.isEmpty = true ∨
        ∀ c children, node c children ∈ p.normalize.subtrees →
          2 ≤ children.length ∧ ∀ x ∈ children, x.isEmpty = false ∧ x.connective? ≠ some c) ∧
      (p.normalize.isEmpty = true ↔ p.leaves = []) ∧
      p.normalize.leaves = p.leaves ∧ p.normalize.params = p.params ∧
      p.normalize.normalize = p.normalize := by
  have hnormal := normal_normalize p
  refine ⟨fun truth => evaluate_normalize truth p, .inr ?_, ?_, leaves_normalize p,
    params_normalize p, hnormal.normalize_eq⟩
  · -- below a tree that says something no subtree is empty
    cases hempty : p.normalize.isEmpty with
    | true => exact .inl rfl
    | false =>
      refine .inr fun c children hmem => ?_
      have hnode := hnormal.of_mem_subtrees _ hmem
      have hfilled := hnormal.filled_of_mem_subtrees hempty _ hmem
      refine ⟨hnode.two_le_length hfilled, fun x hx => ?_⟩
      cases hnode with
      | node several normal filled other => exact ⟨filled x hx, other x hx⟩
  · rw [hnormal.isEmpty_iff, leaves_normalize]

end Predicate

end DocQuery
