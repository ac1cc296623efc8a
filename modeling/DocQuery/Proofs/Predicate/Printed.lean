import DocQuery.Proofs.Predicate.Canonical
import DocQuery.Proofs.Predicate.Grammar

namespace DocQuery

/-! # Printed trees

The grammar derives the text of a normal tree, with the value that the tree has when its tests are
read as words. Read as a tree the text is the tree itself, and read as a truth value it is the
tree's value.

* `derives_child`: the grammar derives the spelling of a child as an item of its connective.
* `Normal.derives`: the grammar derives the spelling of a normal tree, with what the tree reads as.
* `toSql_normalize_reads_back`: a printed tree is read as itself, and as its value.
-/

open Grammar Nonterminal Lexeme

namespace Grammar

/-- Reading a condition as a tree. -/
def trees : Semantics (Predicate String) where
  word := Predicate.leaf
  join := Predicate.collapse
  join_singleton _ _ := rfl

/-- Reading a condition as a truth value. -/
def truths (truth : String → Bool) : Semantics Bool where
  word := truth
  join
    | .and, vs => vs.all id
    | .or, vs => vs.any id
  join_singleton c v := by cases c <;> simp

theorem join_truths_cons (truth : String → Bool) (c : Connective) (v : Bool) (vs : List Bool) :
    (truths truth).join c (v :: vs) = c.apply v ((truths truth).join c vs) := by
  cases c <;> rfl

end Grammar

namespace Predicate

variable {β : Type} {S : Semantics β} {c : Connective} {p : Predicate String}
  {children : List (Predicate String)}

mutual

/-- The value of a tree of words. -/
def read (S : Semantics β) : Predicate String → β
  | leaf text => S.word text
  | node c children => S.join c (readChildren S children)

def readChildren (S : Semantics β) : List (Predicate String) → List β
  | [] => []
  | child :: rest => child.read S :: readChildren S rest

end

/-- A child is put in parentheses unless it is a word. -/
theorem derives_child (c : Connective) {child : Predicate String} (rest : List (Predicate String))
    (hfilled : child.isEmpty = false) (h : Derives S expression child.spelling (child.read S)) :
    ∃ ls, childSpellings (child :: rest) = ls :: childSpellings rest ∧
      Derives S (item c) ls (child.read S) := by
  have hitem : ∀ {ls v}, Derives S operand ls v → Derives S (item c) ls v := by
    intro ls v hoperand
    cases c with
    | and => exact hoperand
    | or => exact Derives.chain_of_item (c := .and) hoperand
  -- a test stands by itself, and a node between brackets
  cases child with
  | leaf text => exact ⟨[word text], rfl, hitem (.word text)⟩
  | node d children =>
    refine ⟨opening :: (node d children).spelling ++ [closing], ?_, hitem (.group h)⟩
    rw [childSpellings, hfilled]
    rfl

/-- Children that can be read make a chain. -/
theorem items_childSpellings (hnonempty : children ≠ [])
    (hfilled : ∀ x ∈ children, x.isEmpty = false)
    (h : ∀ x ∈ children, Derives S expression x.spelling (x.read S)) :
    Items S c ([connective c].intercalate (childSpellings children)) (readChildren S children) := by
  induction children with
  | nil => exact absurd rfl hnonempty
  | cons child rest ih =>
    rcases derives_child c rest (hfilled child List.mem_cons_self) (h child List.mem_cons_self) with
      ⟨ls, hspelling, hchild⟩
    rw [hspelling, readChildren]
    -- the last child ends the chain, and any other is followed by the connective
    cases rest with
    | nil => simpa [childSpellings, readChildren] using Items.last hchild
    | cons next rest =>
      have hrest := ih (by simp) (fun x hx => hfilled x (List.mem_cons_of_mem _ hx))
        fun x hx => h x (List.mem_cons_of_mem _ hx)
      rcases derives_child c rest (hfilled next (by simp)) (h next (by simp)) with ⟨more, hmore, -⟩
      rw [hmore] at hrest ⊢
      rw [List.intercalate_cons_cons, List.append_assoc, List.singleton_append]
      exact .more hchild hrest

/-- The grammar derives what a normal tree is spelled with. -/
theorem Normal.derives (h : p.Normal) (hfilled : p.isEmpty = false) :
    Derives S expression p.spelling (p.read S) := by
  induction h with
  | leaf text => exact Derives.chain_of_item (c := .or) (Derives.chain_of_item (c := .and) (.word text))
  | @node c children several normal filled other ih =>
    have hnonempty : children ≠ [] := by
      rintro rfl
      cases hfilled
    have hchain : Derives S (.chain c) (Predicate.node c children).spelling
        ((Predicate.node c children).read S) :=
      .chain (items_childSpellings hnonempty filled fun x hx => ih x hx (filled x hx))
    -- a conjunction is the only item of a disjunction
    cases c with
    | and => exact Derives.chain_of_item (c := .or) hchain
    | or => exact hchain

/-- Read as a tree, a normal tree is itself. -/
theorem Normal.read_trees (h : p.Normal) : p.read trees = p := by
  induction h with
  | leaf text => rfl
  | @node c children several normal filled other ih =>
    have hchildren : readChildren trees children = children := by
      clear several normal filled other
      induction children with
      | nil => rfl
      | cons child rest ihrest =>
        rw [readChildren, ih child List.mem_cons_self,
          ihrest fun x hx => ih x (List.mem_cons_of_mem _ hx)]
    show collapse c (readChildren trees children) = Predicate.node c children
    rw [hchildren]
    -- a normal node has more than one child, so there is nothing to collapse
    unfold collapse
    split
    · exact absurd rfl several
    · rfl

theorem evaluateChildren_eq_read {truth : String → Bool} (hnonempty : children ≠ [])
    (h : ∀ x ∈ children, x.evaluate truth = some (x.read (truths truth))) :
    evaluateChildren truth c children =
      some ((truths truth).join c (readChildren (truths truth) children)) := by
  induction children with
  | nil => exact absurd rfl hnonempty
  | cons child rest ih =>
    rw [evaluateChildren, h child List.mem_cons_self]
    cases rest with
    | nil => rw [readChildren, readChildren, (truths truth).join_singleton, evaluateChildren,
        Connective.join_none_right]
    | cons next rest =>
      rw [ih (by simp) fun x hx => h x (List.mem_cons_of_mem _ hx)]
      exact congrArg some (join_truths_cons truth c _ _).symm

/-- Read as a truth value, a normal tree is its value. -/
theorem Normal.evaluate_eq_read {truth : String → Bool} (h : p.Normal) (hfilled : p.isEmpty = false) :
    p.evaluate truth = some (p.read (truths truth)) := by
  induction h with
  | leaf text => rfl
  | @node c children several normal filled other ih =>
    have hnonempty : children ≠ [] := by
      rintro rfl
      cases hfilled
    rw [evaluate, evaluateChildren_eq_read hnonempty fun x hx => ih x hx (filled x hx), read]

mutual

/-- The text of a tree is that of the tree of its texts. -/
theorem render_map {α : Type} (text : α → String) (p : Predicate α) :
    (p.map text).render id = p.render text := by
  cases p with
  | leaf test => rfl
  | node c children => rw [map, render, render, renderChildren_map text children]

theorem renderChildren_map {α : Type} (text : α → String) (children : List (Predicate α)) :
    renderChildren id (mapChildren text children) = renderChildren text children := by
  cases children with
  | nil => rfl
  | cons child rest =>
    rw [mapChildren, renderChildren, renderChildren, isEmpty_map, isLeaf_map, render_map text child,
      renderChildren_map text rest]

end

/-- The texts of a tree's normal form, as a tree. -/
def printed (p : Predicate Fragment) : Predicate String := p.normalize.map Fragment.sql

theorem normal_printed (p : Predicate Fragment) : p.printed.Normal :=
  (normal_normalize p).map Fragment.sql

theorem isEmpty_printed {p : Predicate Fragment} (h : p.leaves ≠ []) : p.printed.isEmpty = false := by
  rw [printed, isEmpty_map, ← Bool.not_eq_true, (normal_normalize p).isEmpty_iff, leaves_normalize]
  exact h

/-- The lexemes of a normal form's text are those of the tree of its texts. -/
theorem lexemes_toSql_normalize {p : Predicate Fragment} (hwords : ∀ f ∈ p.leaves, IsWord f.sql) :
    lexemes p.normalize.toSql = p.printed.spelling := by
  rw [toSql, ← render_map, ← printed, lexemes_render]
  rw [printed, leaves_map, leaves_normalize]
  simpa using hwords

/-- The text of a normal form has one reading as a tree, and it is the tree of the texts of the
tests. -/
theorem derives_trees_iff {p : Predicate Fragment} (htests : p.leaves ≠ [])
    (hwords : ∀ f ∈ p.leaves, IsWord f.sql) (t : Predicate String) :
    Derives trees expression (lexemes p.normalize.toSql) t ↔ t = p.printed := by
  have hself := (normal_printed p).derives (S := trees) (isEmpty_printed htests)
  rw [(normal_printed p).read_trees] at hself
  rw [lexemes_toSql_normalize hwords]
  exact ⟨fun h => h.unique hself, fun h => h ▸ hself⟩

/-- The text of a normal form has one reading as a truth value, and it is the value of the tree. -/
theorem derives_truths {p : Predicate Fragment} (htests : p.leaves ≠ [])
    (hwords : ∀ f ∈ p.leaves, IsWord f.sql) {truth : Fragment → Bool} {words : String → Bool}
    (hagree : ∀ f ∈ p.leaves, words f.sql = truth f) :
    ∃ v, p.evaluate truth = some v ∧
      ∀ w, Derives (truths words) expression (lexemes p.normalize.toSql) w ↔ w = v := by
  have hself := (normal_printed p).derives (S := truths words) (isEmpty_printed htests)
  refine ⟨p.printed.read (truths words), ?_, fun w => ?_⟩
  · rw [← (normal_printed p).evaluate_eq_read (isEmpty_printed htests), printed, evaluate_map,
      evaluate_normalize]
    exact (evaluate_congr p hagree).symm
  · rw [lexemes_toSql_normalize hwords]
    exact ⟨fun h => h.unique hself, fun h => h ▸ hself⟩

/-- The text of a normal form is an expression of the grammar. It is read as the tree of the tests'
texts and has the value of the tree, and normal forms of the same text have the same tree of texts. -/
theorem toSql_normalize_reads_back (p : Predicate Fragment) (htests : p.leaves ≠ [])
    (hwords : ∀ f ∈ p.leaves, IsWord f.sql) :
    (∀ t, Derives trees expression (lexemes p.normalize.toSql) t ↔ t = p.normalize.map Fragment.sql) ∧
      parse trees (lexemes p.normalize.toSql) = some (p.normalize.map Fragment.sql) ∧
      (∀ (truth : Fragment → Bool) (words : String → Bool),
        (∀ f ∈ p.leaves, words f.sql = truth f) →
          ∃ v, p.evaluate truth = some v ∧
            ∀ w, Derives (truths words) expression (lexemes p.normalize.toSql) w ↔ w = v) ∧
      ∀ q : Predicate Fragment, q.leaves ≠ [] → (∀ f ∈ q.leaves, IsWord f.sql) →
        q.normalize.toSql = p.normalize.toSql →
          q.normalize.map Fragment.sql = p.normalize.map Fragment.sql := by
  refine ⟨derives_trees_iff htests hwords, ?_, fun truth words => derives_truths htests hwords, ?_⟩
  · rw [parse_eq_some_iff, derives_trees_iff htests hwords, printed]
  · intro q hq hqwords hsame
    have hown := (derives_trees_iff hq hqwords q.printed).2 rfl
    rw [hsame] at hown
    exact (derives_trees_iff htests hwords q.printed).1 hown

/-- A condition with both connectives, and with nodes that normalizing removes. -/
def nestedSample : Predicate Fragment :=
  all [leaf { sql := "a" }, all [any [leaf { sql := "b" }, any [leaf { sql := "c" }]], any []]]

theorem nestedSample_reads_back :
    nestedSample.leaves ≠ [] ∧ (∀ f ∈ nestedSample.leaves, IsWord f.sql) ∧
      nestedSample.normalize.toSql = "a AND (b OR c)" ∧
      parse trees (lexemes "a AND (b OR c)") =
        some (node .and [leaf "a", node .or [leaf "b", leaf "c"]]) := by
  have htests : nestedSample.leaves ≠ [] := by decide
  have hwords : ∀ f ∈ nestedSample.leaves, IsWord f.sql := by
    intro f hf
    simp [nestedSample, all, any, leaves, childLeaves] at hf
    rcases hf with rfl | rfl | rfl <;>
      exact ⟨by decide, by simp [isMark], fun c => by cases c <;> simp [Connective.keyword]⟩
  have htext : nestedSample.normalize.toSql = "a AND (b OR c)" := by decide +kernel
  have hparse := (toSql_normalize_reads_back nestedSample htests hwords).2.1
  rw [htext] at hparse
  exact ⟨htests, hwords, htext, hparse⟩

end Predicate

end DocQuery
