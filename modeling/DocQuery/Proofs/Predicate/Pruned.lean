import Mathlib.Algebra.GroupWithZero.Nat
import Mathlib.Data.List.Chain
import DocQuery.Proofs.Predicate.Canonical

namespace DocQuery

/-! # Trees with parts that say nothing

A child without tests says nothing, however many combinators it is made of. Rendering leaves such a
child out if it has no children of its own, and otherwise writes an empty pair of parentheses where
it stands. So the text of a tree is that of its pruned tree exactly if every child without tests is
bare: exactly if the tree is tidy. Normalizing makes every tree tidy.

* `render_eq_render_pruned_iff`: the text is that of the pruned tree exactly if the tree is tidy.
* `hasEmptyPair_render_iff`: exactly a tree that is not tidy writes an empty pair of parentheses.
* `render_eq_empty_iff`: which trees have no text at all.
* `toSql_skips_untested`: the three together, for the text of a clause.
-/

namespace Predicate

variable {α : Type} {c : Connective} {p : Predicate α} {children : List (Predicate α)}
  {text : α → String}

/-- Induction over a tree: what holds of all children of a node carries over to the node. -/
theorem children_induction {P : Predicate α → Prop} (leaf : ∀ test, P (leaf test))
    (node : ∀ c children, (∀ x ∈ children, P x) → P (node c children)) (p : Predicate α) : P p :=
  @Predicate.rec α P (fun children => ∀ x ∈ children, P x) leaf
    (fun c children ih => node c children ih) (fun _ hx => nomatch hx)
    (fun _ _ hchild hrest x hx => (List.mem_cons.1 hx).elim (fun h => h ▸ hchild) (hrest x)) p

/-! ## Pruning -/

mutual

/-- The tree without the children, at any depth, that have no tests. -/
def pruned : Predicate α → Predicate α
  | leaf test => leaf test
  | node c children => node c (prunedChildren children)

def prunedChildren : List (Predicate α) → List (Predicate α)
  | [] => []
  | child :: rest =>
    if child.leaves.isEmpty then prunedChildren rest else child.pruned :: prunedChildren rest

end

theorem prunedChildren_eq_map (children : List (Predicate α)) :
    prunedChildren children = (children.filter fun x => !x.leaves.isEmpty).map pruned := by
  induction children with
  | nil => rfl
  | cons child rest ih =>
    rw [prunedChildren, List.filter_cons, ih]
    cases child.leaves.isEmpty <;> rfl

/-- A test of the children is a test of one of them. -/
theorem mem_childLeaves {test : α} : test ∈ childLeaves children ↔ ∃ x ∈ children, test ∈ x.leaves := by
  induction children with
  | nil => simp [childLeaves]
  | cons child rest ih => simp [childLeaves, ih]

/-- Children are without tests if each of them is. -/
theorem childLeaves_eq_nil_iff : childLeaves children = [] ↔ ∀ x ∈ children, x.leaves = [] := by
  induction children with
  | nil => simp [childLeaves]
  | cons child rest ih => simp [childLeaves, ih]

/-- Nothing is left of the children exactly if they have no tests. -/
theorem prunedChildren_eq_nil_iff : prunedChildren children = [] ↔ childLeaves children = [] := by
  simp [prunedChildren_eq_map, List.filter_eq_nil_iff, childLeaves_eq_nil_iff]

/-- A tree without tests is pruned to a combinator without children. -/
theorem pruned_of_leaves_eq_nil (h : p.leaves = []) : ∃ c, p.pruned = node c [] := by
  cases p with
  | leaf test => cases h
  | node c children =>
    rw [leaves, ← prunedChildren_eq_nil_iff] at h
    exact ⟨c, by rw [pruned, h]⟩

/-- A leaf has a test. -/
theorem isLeaf_of_leaves_eq_nil (h : p.leaves = []) : p.isLeaf = false := by
  cases p with
  | leaf test => cases h
  | node c children => rfl

/-- Pruning makes no leaf of a combinator. -/
theorem isLeaf_pruned (p : Predicate α) : p.pruned.isLeaf = p.isLeaf := by
  cases p <;> rfl

/-- A tree with tests keeps children when it is pruned. -/
theorem isEmpty_pruned (h : p.leaves ≠ []) : p.pruned.isEmpty = false := by
  cases p with
  | leaf test => rfl
  | node c children =>
    rw [leaves, Ne, ← prunedChildren_eq_nil_iff] at h
    simpa [pruned, isEmpty] using h

/-- No child of a pruned tree is empty. -/
theorem filter_prunedChildren (children : List (Predicate α)) :
    ((prunedChildren children).filter fun x => !x.isEmpty) = prunedChildren children := by
  rw [List.filter_eq_self, prunedChildren_eq_map]
  intro x hx
  obtain ⟨y, hy, rfl⟩ := List.mem_map.1 hx
  have htests : y.leaves ≠ [] := by simpa using (List.mem_filter.1 hy).2
  simp [isEmpty_pruned htests]

/-- Only a tree without tests has no value. -/
theorem evaluate_eq_none_iff (truth : α → Bool) (p : Predicate α) :
    p.evaluate truth = none ↔ p.leaves = [] := by
  induction p using children_induction with
  | leaf test => simp [evaluate, leaves]
  | node c children ih =>
    rw [evaluate, leaves, childLeaves_eq_nil_iff]
    induction children with
    | nil => simp [evaluateChildren]
    | cons child rest ihrest =>
      rw [List.forall_mem_cons] at ih
      rw [List.forall_mem_cons, ← ih.1, ← ihrest ih.2, evaluateChildren]
      cases child.evaluate truth <;> cases evaluateChildren truth c rest <;> simp [Connective.join]

/-! ## Tidy trees -/

/-- Every child without tests, at any depth, is a combinator without children. -/
def Tidy (p : Predicate α) : Prop :=
  ∀ c children, node c children ∈ p.subtrees → ∀ x ∈ children, x.leaves = [] → x.isEmpty = true

/-- A leaf has no children to say nothing. -/
theorem tidy_leaf (test : α) : (leaf test).Tidy := by
  intro c children hmem
  simp [subtrees] at hmem

/-- A combinator is tidy if its children are, those without tests being bare. -/
theorem tidy_node :
    (node c children).Tidy ↔ ∀ x ∈ children, (x.leaves = [] → x.isEmpty = true) ∧ x.Tidy := by
  simp only [Tidy, subtrees, List.mem_cons, mem_childSubtrees]
  constructor
  · intro h x hx
    exact ⟨h c children (.inl rfl) x hx, fun d grand hmem => h d grand (.inr ⟨x, hx, hmem⟩)⟩
  · rintro h d grand (hself | ⟨x, hx, hmem⟩)
    · cases hself
      exact fun x hx => (h x hx).1
    · exact (h x hx).2 d grand hmem

/-- A bare combinator is tidy. -/
theorem tidy_of_isEmpty (h : p.isEmpty = true) : p.Tidy := by
  cases p with
  | leaf test => cases h
  | node c children =>
    rw [List.isEmpty_iff.1 h, tidy_node]
    exact fun x hx => nomatch hx

/-- In a tidy tree a child has tests unless it is empty. -/
theorem Tidy.isEmpty_child (h : (node c children).Tidy) {x : Predicate α} (hx : x ∈ children) :
    x.isEmpty = x.leaves.isEmpty := by
  rw [Bool.eq_iff_iff, List.isEmpty_iff]
  exact ⟨leaves_of_isEmpty x, (tidy_node.1 h x hx).1⟩

/-- A tree in normal form has no bare combinator below its root. -/
theorem Normal.tidy (h : p.Normal) : p.Tidy := by
  intro c children hmem x hx hnone
  cases h.of_mem_subtrees _ hmem with
  | node several normal filled other =>
    exact (normal x hx).isEmpty_iff.2 hnone

/-! ## Texts of children -/

/-- A child in the text of its node. -/
def grouped (text : α → String) (child : Predicate α) : String :=
  if child.isLeaf then child.render text else "(" ++ child.render text ++ ")"

/-- A node shows the children that are not empty. -/
theorem renderChildren_eq_map (text : α → String) (children : List (Predicate α)) :
    renderChildren text children = (children.filter fun x => !x.isEmpty).map (grouped text) := by
  induction children with
  | nil => rfl
  | cons child rest ih =>
    rw [renderChildren, List.filter_cons, ih]
    cases child.isEmpty <;> cases hleaf : child.isLeaf <;> simp [grouped, hleaf]

/-- The text of a combinator joins the grouped texts of the children that are not bare. -/
theorem toList_render_node (text : α → String) (c : Connective) (children : List (Predicate α)) :
    ((node c children).render text).toList =
      (" " ++ c.keyword ++ " ").toList.intercalate
        ((children.filter fun x => !x.isEmpty).map fun x => (grouped text x).toList) := by
  rw [render, renderChildren_eq_map, String.toList_intercalate, List.map_map]
  rfl

/-- A combinator stands in parentheses. -/
theorem toList_grouped_of_isLeaf_eq_false (h : p.isLeaf = false) :
    (grouped text p).toList = '(' :: (p.render text).toList ++ [')'] := by
  simp [grouped, h]

/-- A tidy tree and its pruned tree have the same text. -/
theorem Tidy.render_pruned (h : p.Tidy) : p.pruned.render text = p.render text := by
  induction p using children_induction with
  | leaf test => rfl
  | node c children ih =>
    have hkept : (children.filter fun x => !x.leaves.isEmpty) = children.filter fun x => !x.isEmpty :=
      List.filter_congr fun x hx => by rw [h.isEmpty_child hx]
    rw [pruned, render, render, renderChildren_eq_map, renderChildren_eq_map, filter_prunedChildren,
      prunedChildren_eq_map, List.map_map, hkept]
    congr 1
    refine List.map_congr_left fun x hx => ?_
    have hmem := List.mem_of_mem_filter hx
    rw [Function.comp_apply, grouped, grouped, isLeaf_pruned, ih x hmem (tidy_node.1 h x hmem).2]

/-- A tidy tree without tests has no text. -/
theorem Tidy.render_eq_empty (h : p.Tidy) (hnone : p.leaves = []) : p.render text = "" := by
  obtain ⟨c, hc⟩ := pruned_of_leaves_eq_nil hnone
  rw [← h.render_pruned, hc]
  rfl

/-! ## Empty pairs of parentheses -/

/-- An opening parenthesis is followed by a closing one. -/
def HasEmptyPair (cs : List Char) : Prop := ['(', ')'] <:+: cs

/-- Without an empty pair, no opening parenthesis stands right before a closing one. -/
theorem not_hasEmptyPair_iff (cs : List Char) :
    ¬HasEmptyPair cs ↔ cs.IsChain fun a b => ¬(a = '(' ∧ b = ')') := by
  rw [List.isChain_iff_forall_rel_of_append_cons_cons]
  constructor
  · rintro h a b before after rfl ⟨rfl, rfl⟩
    exact h ⟨before, after, by simp⟩
  · rintro h ⟨before, after, rfl⟩
    exact @h '(' ')' before after (by simp) ⟨rfl, rfl⟩

/-- Each part is part of the joined text. -/
theorem infix_intercalate (separator : List Char) {parts : List (List Char)} {part : List Char}
    (h : part ∈ parts) : part <:+: separator.intercalate parts := by
  induction parts with
  | nil => cases h
  | cons first rest ih =>
    cases rest with
    | nil =>
      have hjoined : separator.intercalate [first] = part := by
        rw [List.intercalate_singleton, List.mem_singleton.1 h]
      exact hjoined ▸ List.infix_rfl
    | cons second rest =>
      rw [List.intercalate_cons_cons]
      rcases List.mem_cons.1 h with rfl | h
      · exact ((List.prefix_append _ _).trans (List.prefix_append _ _)).isInfix
      · exact (ih h).trans (List.suffix_append _ _).isInfix

/-- The children that are not empty can be found in the text. -/
theorem infix_render {x : Predicate α} (hx : x ∈ children) (hfilled : x.isEmpty = false) :
    (grouped text x).toList <:+: ((node c children).render text).toList := by
  rw [toList_render_node]
  exact infix_intercalate _ (List.mem_map_of_mem (List.mem_filter.2 ⟨hx, by simp [hfilled]⟩))

/-- A child that is neither bare nor worth its place shows as an empty pair of parentheses. -/
theorem hasEmptyPair_render (h : ¬p.Tidy) : HasEmptyPair (p.render text).toList := by
  induction p using children_induction with
  | leaf test => exact absurd (tidy_leaf test) h
  | node c children ih =>
    rw [tidy_node] at h
    push Not at h
    obtain ⟨x, hx, hbad⟩ := h
    have hfilled : x.isEmpty = false :=
      Bool.eq_false_iff.2 fun hempty => hbad (fun _ => hempty) (tidy_of_isEmpty hempty)
    have hnode : x.isLeaf = false := by
      cases x with
      | leaf test => exact absurd (tidy_leaf test) (hbad fun hnone => nomatch hnone)
      | node d grand => rfl
    refine List.IsInfix.trans ?_ (infix_render hx hfilled)
    rw [toList_grouped_of_isLeaf_eq_false hnode]
    by_cases htidy : x.Tidy
    · -- what is tidy below is the matter itself: it has children and no tests
      have hnone : x.leaves = [] := by
        by_contra htests
        exact hbad (fun hnone => absurd hnone htests) htidy
      rw [htidy.render_eq_empty hnone]
      exact List.infix_rfl
    · exact (ih x hx htidy).trans ⟨['('], [')'], by simp⟩

/-- The parentheses in the text pair up with none that are put around it. -/
structure Sealed (cs : List Char) : Prop where
  nonempty : cs ≠ []
  first : cs.head? ≠ some ')'
  last : cs.getLast? ≠ some '('
  pairs : ¬HasEmptyPair cs

namespace Sealed

variable {cs ds : List Char} {parts : List (List Char)}

/-- Sealed texts are sealed one behind the other, as no pair comes about between them. -/
theorem append (hcs : Sealed cs) (hds : Sealed ds) : Sealed (cs ++ ds) where
  nonempty := List.append_ne_nil_of_left_ne_nil hcs.nonempty _
  first := by
    rw [List.head?_append_of_ne_nil _ hcs.nonempty]
    exact hcs.first
  last := by
    rw [List.getLast?_append_of_ne_nil _ hds.nonempty]
    exact hds.last
  pairs := by
    rw [not_hasEmptyPair_iff, List.isChain_append]
    refine ⟨(not_hasEmptyPair_iff _).1 hcs.pairs, (not_hasEmptyPair_iff _).1 hds.pairs, ?_⟩
    rintro a ha b hb ⟨rfl, rfl⟩
    exact hcs.last ha

/-- A sealed text is sealed in parentheses. -/
theorem group (h : Sealed cs) : Sealed ('(' :: cs ++ [')']) where
  nonempty := List.cons_ne_nil _ _
  first := by simp
  last := by
    rw [List.getLast?_concat]
    simp
  pairs := by
    rw [not_hasEmptyPair_iff, List.cons_append, List.isChain_cons, List.isChain_append]
    refine ⟨?_, (not_hasEmptyPair_iff _).1 h.pairs, List.isChain_singleton _, ?_⟩
    · rintro b hb ⟨-, rfl⟩
      rw [List.head?_append_of_ne_nil _ h.nonempty] at hb
      exact h.first hb
    · rintro a ha b - ⟨rfl, -⟩
      exact h.last ha

/-- Parts are joined by a sealed separator to a sealed text. -/
theorem intercalate {separator : List Char} (hseparator : Sealed separator) (hne : parts ≠ [])
    (h : ∀ part ∈ parts, Sealed part) : Sealed (separator.intercalate parts) := by
  induction parts with
  | nil => exact absurd rfl hne
  | cons first rest ih =>
    rw [List.forall_mem_cons] at h
    cases rest with
    | nil =>
      rw [List.intercalate_singleton]
      exact h.1
    | cons second rest =>
      rw [List.intercalate_cons_cons]
      exact (h.1.append hseparator).append (ih (List.cons_ne_nil _ _) h.2)

theorem connective (c : Connective) : Sealed (" " ++ c.keyword ++ " ").toList where
  nonempty := by cases c <;> decide
  first := by cases c <;> decide
  last := by cases c <;> decide
  pairs := by
    rw [not_hasEmptyPair_iff]
    cases c <;> decide

end Sealed

/-- A tidy tree of sealed texts has a sealed text. -/
theorem Tidy.sealed_render (h : p.Tidy) (htests : p.leaves ≠ [])
    (hsealed : ∀ test ∈ p.leaves, Sealed (text test).toList) : Sealed (p.render text).toList := by
  induction p using children_induction with
  | leaf test => exact hsealed test List.mem_cons_self
  | node c children ih =>
    rw [toList_render_node]
    refine (Sealed.connective c).intercalate ?_ ?_
    · -- there is a part to write, as a child with a test is not bare
      rw [leaves, Ne, childLeaves_eq_nil_iff] at htests
      push Not at htests
      obtain ⟨x, hx, hx_tests⟩ := htests
      refine List.ne_nil_of_mem (List.mem_map_of_mem (List.mem_filter.2 ⟨hx, ?_⟩))
      simpa [h.isEmpty_child hx] using hx_tests
    · -- each part is the text of a child with a test, which is sealed, in parentheses or without
      intro part hpart
      obtain ⟨x, hx, rfl⟩ := List.mem_map.1 hpart
      obtain ⟨hx, hfilled⟩ := List.mem_filter.1 hx
      rw [h.isEmpty_child hx] at hfilled
      have hx_sealed := ih x hx (tidy_node.1 h x hx).2 (by simpa using hfilled)
        fun test htest => hsealed test (mem_childLeaves.2 ⟨x, hx, htest⟩)
      cases hleaf : x.isLeaf with
      | true => simpa [grouped, hleaf] using hx_sealed
      | false =>
        rw [toList_grouped_of_isLeaf_eq_false hleaf]
        exact hx_sealed.group

/-- Among sealed texts an empty pair of parentheses gives away a tree that is not tidy. -/
theorem hasEmptyPair_render_iff (hsealed : ∀ test ∈ p.leaves, Sealed (text test).toList) :
    HasEmptyPair (p.render text).toList ↔ ¬p.Tidy := by
  refine ⟨fun hpair htidy => ?_, hasEmptyPair_render⟩
  by_cases hnone : p.leaves = []
  · rw [htidy.render_eq_empty hnone] at hpair
    exact absurd hpair.length_le (by decide)
  · exact (htidy.sealed_render hnone hsealed).pairs hpair

/-! ## Counting parentheses -/

/-- A character that the separator has not is counted part by part. -/
theorem count_intercalate {a : Char} {separator : List Char} (h : a ∉ separator)
    (parts : List (List Char)) :
    (separator.intercalate parts).count a = (parts.map (List.count a)).sum := by
  induction parts with
  | nil => rfl
  | cons first rest ih =>
    cases rest with
    | nil => simp
    | cons second rest =>
      rw [List.intercalate_cons_cons, List.count_append, List.count_append, List.count_eq_zero.2 h, ih]
      simp

/-- The number of opening parentheses in the text of a tree. -/
def openings (text : α → String) (p : Predicate α) : Nat := (p.render text).toList.count '('

/-- The number of opening parentheses that a child adds to the text of its node. -/
def groupedOpenings (text : α → String) (x : Predicate α) : Nat :=
  if x.isEmpty then 0 else (grouped text x).toList.count '('

/-- A combinator opens the parentheses of its children. -/
theorem openings_node (text : α → String) (c : Connective) (children : List (Predicate α)) :
    (node c children).openings text = (children.map (groupedOpenings text)).sum := by
  have hkeyword : '(' ∉ (" " ++ c.keyword ++ " ").toList := by cases c <;> decide
  rw [openings, toList_render_node, count_intercalate hkeyword]
  induction children with
  | nil => rfl
  | cons child rest ih =>
    rw [List.map_cons, List.sum_cons, List.filter_cons, ← ih, groupedOpenings]
    cases child.isEmpty <;> simp

/-- A child that is written opens its own parentheses, and one more if it is a combinator. -/
theorem groupedOpenings_of_filled (h : p.isEmpty = false) :
    p.groupedOpenings text = p.openings text + if p.isLeaf then 0 else 1 := by
  cases hleaf : p.isLeaf with
  | true => simp [groupedOpenings, openings, grouped, h, hleaf]
  | false =>
    rw [groupedOpenings, openings, toList_grouped_of_isLeaf_eq_false hleaf]
    simp [h, List.count_append]

/-- Pruning takes no parentheses away from a tidy tree, and some from every other. -/
theorem openings_pruned (text : α → String) (p : Predicate α) :
    p.pruned.openings text ≤ p.openings text ∧ (p.openings text ≤ p.pruned.openings text → p.Tidy) := by
  induction p using children_induction with
  | leaf test => exact ⟨le_rfl, fun _ => tidy_leaf test⟩
  | node c children ih =>
    rw [tidy_node, pruned, openings_node, openings_node, prunedChildren_eq_map]
    induction children with
    | nil => exact ⟨le_rfl, fun _ x hx => nomatch hx⟩
    | cons child rest ihrest =>
      rw [List.forall_mem_cons] at ih
      obtain ⟨hle, hrest⟩ := ihrest ih.2
      obtain ⟨hle_child, htidy⟩ := ih.1
      rw [List.forall_mem_cons, List.filter_cons, List.map_cons, List.sum_cons]
      by_cases hnone : child.leaves = []
      · -- the pruned tree has nothing for this child
        rw [if_neg (by simp [hnone])]
        refine ⟨hle.trans (Nat.le_add_left _ _), fun hsame => ?_⟩
        have hempty : child.isEmpty = true := by
          by_contra hfilled
          rw [Bool.not_eq_true] at hfilled
          rw [groupedOpenings_of_filled hfilled, isLeaf_of_leaves_eq_nil hnone] at hsame
          simp only [Bool.false_eq_true, if_false] at hsame
          omega
        exact ⟨⟨fun _ => hempty, tidy_of_isEmpty hempty⟩, hrest (by omega)⟩
      · have hfilled : child.isEmpty = false :=
          Bool.eq_false_iff.2 fun hempty => hnone (leaves_of_isEmpty child hempty)
        rw [if_pos (by simpa using hnone), List.map_cons, List.map_cons, List.sum_cons,
          groupedOpenings_of_filled hfilled, groupedOpenings_of_filled (isEmpty_pruned hnone),
          isLeaf_pruned]
        refine ⟨by omega, fun hsame => ⟨⟨fun h => absurd h hnone, htidy (by omega)⟩, hrest (by omega)⟩⟩

/-- A tree has the text of its pruned tree exactly if it is tidy. -/
theorem render_eq_render_pruned_iff : p.render text = p.pruned.render text ↔ p.Tidy := by
  refine ⟨fun h => (openings_pruned text p).2 ?_, fun h => h.render_pruned.symm⟩
  rw [openings, openings, h]

/-! ## Trees without text -/

/-- The tree is one test without text, perhaps below a connective. -/
def IsMute (text : α → String) (p : Predicate α) : Prop :=
  ∃ test, text test = "" ∧ (p = leaf test ∨ ∃ c, p = node c [leaf test])

/-- Joined parts are empty if there is nothing, or one empty part, to join. -/
theorem intercalate_eq_nil_iff {separator : List Char} (h : separator ≠ []) {parts : List (List Char)} :
    separator.intercalate parts = [] ↔ parts = [] ∨ parts = [[]] := by
  cases parts with
  | nil => simp
  | cons first rest =>
    cases rest with
    | nil => simp
    | cons second rest => simp [List.intercalate_cons_cons, h]

/-- A pruned tree has no text if it has no tests, or a single one without text. -/
theorem render_pruned_eq_empty_iff :
    p.pruned.render text = "" ↔ p.leaves = [] ∨ p.pruned.IsMute text := by
  constructor
  · -- the text of a combinator with two children has a connective, and that of a combinator with
    -- one combinator has parentheses, so only a lone leaf can be without text
    intro h
    by_contra hnot
    push Not at hnot
    obtain ⟨htests, hmute⟩ := hnot
    cases p with
    | leaf test => exact hmute ⟨test, h, .inl rfl⟩
    | node c children =>
      rw [pruned] at h hmute
      rw [← String.toList_inj, toList_render_node, String.toList_empty,
        intercalate_eq_nil_iff (Sealed.connective c).nonempty, filter_prunedChildren,
        List.map_eq_nil_iff, List.map_eq_singleton_iff, prunedChildren_eq_nil_iff] at h
      rcases h with hnone | ⟨child, hchild, htext⟩
      · exact htests hnone
      · cases child with
        | leaf test => exact hmute ⟨test, by simpa [grouped, isLeaf, render] using htext,
            .inr ⟨c, by rw [hchild]⟩⟩
        | node d grand => simp [grouped, isLeaf] at htext
  · -- each of the three kinds of tree has no text
    rintro (hnone | ⟨test, htext, hleaf | ⟨c, hnode⟩⟩)
    · obtain ⟨c, hc⟩ := pruned_of_leaves_eq_nil hnone
      rw [hc]
      rfl
    · rw [hleaf]
      exact htext
    · rw [hnode]
      simpa [render, renderChildren, isEmpty, isLeaf] using htext

/-- A tree has no text if it is tidy and has no tests, or a single one without text. -/
theorem render_eq_empty_iff :
    p.render text = "" ↔ p.Tidy ∧ (p.leaves = [] ∨ p.pruned.IsMute text) := by
  constructor
  · intro h
    have htidy : p.Tidy := by
      by_contra hnot
      have hpair : HasEmptyPair (p.render text).toList := hasEmptyPair_render hnot
      rw [h] at hpair
      exact absurd hpair.length_le (by decide)
    exact ⟨htidy, render_pruned_eq_empty_iff.1 (by rw [htidy.render_pruned, h])⟩
  · rintro ⟨htidy, hmute⟩
    rw [← htidy.render_pruned]
    exact render_pruned_eq_empty_iff.2 hmute

/-! ## Conditions -/

/-- The condition of a tree is that of its pruned tree exactly if the tree is tidy, and it is empty
exactly if the tree is tidy and says nothing, or nothing that can be read. An empty pair of
parentheses stands in the condition of every tree that is not tidy and, among sealed texts, of no
other. Normal forms are tidy. -/
theorem toSql_skips_untested (p : Predicate Fragment) :
    (p.toSql = p.pruned.toSql ↔ p.Tidy) ∧
      (∀ truth, p.toSql = "" ↔
        p.Tidy ∧ (p.evaluate truth = none ∨ p.pruned.IsMute Fragment.sql)) ∧
      (¬p.Tidy → HasEmptyPair p.toSql.toList) ∧
      ((∀ f ∈ p.leaves, Sealed f.sql.toList) → (HasEmptyPair p.toSql.toList ↔ ¬p.Tidy)) ∧
      p.normalize.Tidy := by
  refine ⟨render_eq_render_pruned_iff, fun truth => ?_, hasEmptyPair_render, hasEmptyPair_render_iff,
    (normal_normalize p).tidy⟩
  rw [evaluate_eq_none_iff]
  exact render_eq_empty_iff

/-- A test, and a conjunction that holds nothing but an empty disjunction. -/
def hollowSample : Predicate Fragment := all [leaf { sql := "a" }, all [any []]]

/-- The hollow conjunction shows, though it is not a combinator without children. -/
theorem hollowSample_shows : hollowSample.toSql = "a AND ()" ∧ hollowSample.pruned.toSql = "a" := by
  decide +kernel

/-- The sample shows that the exception is needed: its tests are sealed, and still a pair is empty. -/
theorem hollowSample_skips_untested :
    (∀ f ∈ hollowSample.leaves, Sealed f.sql.toList) ∧ ¬hollowSample.Tidy ∧
      HasEmptyPair hollowSample.toSql.toList := by
  obtain ⟨hsame, -, hpair, hsealed_pair, -⟩ := toSql_skips_untested hollowSample
  have hsealed : ∀ f ∈ hollowSample.leaves, Sealed f.sql.toList := by
    intro f hf
    simp [hollowSample, all, any, leaves, childLeaves] at hf
    subst hf
    exact ⟨by decide, by decide, by decide, by rw [not_hasEmptyPair_iff]; decide⟩
  have hnot : ¬hollowSample.Tidy := by
    rw [← hsame]
    decide +kernel
  exact ⟨hsealed, hnot, (hsealed_pair hsealed).2 hnot⟩

end Predicate

end DocQuery
