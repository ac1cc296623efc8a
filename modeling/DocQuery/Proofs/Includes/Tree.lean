import Mathlib.Data.List.Infix
import DocQuery.IncludeTree
import DocQuery.Proofs.Dictionary.Entries

namespace DocQuery

/-!
# The tree of a set of paths

The nodes of a tree of paths are the prefixes of the paths. As the names at a node stand in order, a
tree is known by its nodes, so the order of the paths and their repetitions leave no mark on it. The
leaves, listed in order, are the paths that no other path prolongs.

* `isSome_find?_ofPaths`: the nodes of a tree of paths are the prefixes of the paths.
* `Ordered.eq_of_nodes`: an ordered tree is known by its nodes.
* `ofPaths_is_prefix_closure`: nodes, independence of order and the listed paths, taken together.
-/

namespace IncludeTree

variable {t u : IncludeTree} {path : List String}

/-! ## Nodes -/

/-- A path that is inserted adds the nodes on its way. -/
theorem isSome_find?_insert (t : IncludeTree) (path names : List String) :
    ((t.insert path).find? names).isSome ↔ (t.find? names).isSome ∨ names <+: path := by
  induction path generalizing t names with
  | nil =>
    rw [insert, List.prefix_nil]
    refine ⟨.inl, ?_⟩
    rintro (h | rfl)
    · exact h
    · rfl
  | cons name path ih =>
    cases names with
    | nil => exact iff_of_true rfl (.inl rfl)
    | cons other rest =>
      rw [insert, find?, get?, children, List.cons_prefix_cons, find?]
      by_cases hname : other = name
      · subst hname
        rw [valueAt?_insertEntry_self, Option.bind_some, ih, eq_self_iff_true, true_and]
        cases t.get? other with
        | some child => rfl
        | none =>
          -- below a new name there is only what is inserted
          rw [Option.getD_none, Option.bind_none, Option.isSome_none]
          refine ⟨?_, fun h => .inr (h.resolve_left Bool.false_ne_true)⟩
          rintro (h | h)
          · cases rest with
            | nil => exact .inr List.nil_prefix
            | cons next rest => cases h
          · exact .inr h
      · rw [valueAt?_insertEntry_of_ne _ _ (Ne.symm hname)]
        simp only [hname, false_and, or_false]
        rfl

/-- The nodes of a tree of paths are those on the way of a path. -/
theorem isSome_find?_ofPaths (paths : List (List String)) (names : List String) :
    ((ofPaths paths).find? names).isSome ↔ names = [] ∨ ∃ path ∈ paths, names <+: path := by
  have hfold : ∀ t : IncludeTree, ((paths.foldl insert t).find? names).isSome ↔
      (t.find? names).isSome ∨ ∃ path ∈ paths, names <+: path := by
    induction paths with
    | nil => simp
    | cons path paths ih =>
      intro t
      rw [List.foldl_cons, ih, isSome_find?_insert, or_assoc, List.exists_mem_cons_iff]
  rw [ofPaths, hfold]
  refine or_congr_left ?_
  cases names with
  | nil => exact iff_of_true rfl rfl
  | cons name names => exact iff_of_false Bool.false_ne_true (List.cons_ne_nil _ _)

/-- A path is looked up by its front and then by its back. -/
theorem find?_append (t : IncludeTree) (front back : List String) :
    t.find? (front ++ back) = (t.find? front).bind fun child => child.find? back := by
  induction front generalizing t with
  | nil => rfl
  | cons name front ih =>
    rw [List.cons_append, find?, find?]
    cases t.get? name with
    | none => rfl
    | some child => exact ih child

/-- A tree without names has no nodes besides its root. -/
theorem find?_empty (names : List String) :
    empty.find? names = if names = [] then some empty else none := by
  cases names <;> rfl

/-- A tree without nodes below its root is empty. -/
theorem eq_empty_of_find? (h : ∀ name, (t.find? [name]).isSome = false) : t = empty := by
  obtain ⟨children⟩ := t
  cases children with
  | nil => rfl
  | cons head rest =>
    have hhead := h head.1
    simp [find?, get?, children, valueAt?] at hhead

/-! ## Trees in order -/

/-- The names at each node stand in order. -/
inductive Ordered : IncludeTree → Prop
  | node {children : List (String × IncludeTree)} (names : children.Pairwise fun a b => a.1 < b.1)
      (below : ∀ name child, (name, child) ∈ children → Ordered child) : Ordered (.node children)

/-- The empty tree is ordered. -/
theorem ordered_empty : empty.Ordered := by
  constructor
  · exact .nil
  · intro name child hmem
    cases hmem

/-- The names at a node stand in order. -/
theorem Ordered.names (h : t.Ordered) : t.children.Pairwise fun a b => a.1 < b.1 := by
  cases h with
  | node names below => exact names

/-- What is below an ordered tree is ordered. -/
theorem Ordered.get? (h : t.Ordered) {name : String} {child : IncludeTree}
    (hget : t.get? name = some child) : child.Ordered := by
  cases h with
  | node names below => exact below name child (mem_of_valueAt? hget)

/-- Putting a path in keeps a tree ordered. -/
theorem Ordered.insert (h : t.Ordered) (path : List String) : (t.insert path).Ordered := by
  induction path generalizing t with
  | nil => exact h
  | cons name path ih =>
    have hchild : ((t.get? name).getD empty).Ordered := by
      cases hget : t.get? name with
      | none => exact ordered_empty
      | some child => exact h.get? hget
    cases h with
    | node names below =>
      constructor
      · exact insertEntry_sorted names
      · intro other child hmem
        rcases mem_insertEntry hmem with hnew | hold
        · cases hnew
          exact ih hchild
        · exact below other child hold

/-- The tree of a set of paths is ordered. -/
theorem ordered_ofPaths (paths : List (List String)) : (ofPaths paths).Ordered := by
  have hfold : ∀ t : IncludeTree, t.Ordered → (paths.foldl IncludeTree.insert t).Ordered := by
    induction paths with
    | nil => exact fun _ h => h
    | cons path paths ih => exact fun t h => ih _ (h.insert path)
  exact hfold empty ordered_empty

/-- Trees in order with the same nodes are equal. -/
theorem Ordered.eq_of_nodes (h : t.Ordered) (h' : u.Ordered)
    (same : ∀ names, (t.find? names).isSome ↔ (u.find? names).isSome) : t = u := by
  induction h generalizing u with
  | @node children names below ih =>
    have hchildren : children = u.children := by
      apply eq_of_valueAt?_eq names h'.names
      intro name
      have hname := same [name]
      have hbelow : ∀ rest, _ := fun rest => same (name :: rest)
      simp only [find?] at hname hbelow
      change (IncludeTree.node children).get? name = u.get? name
      cases ht : (IncludeTree.node children).get? name with
      | none =>
        cases hu : u.get? name with
        | none => rfl
        | some child => simp [ht, hu] at hname
      | some child =>
        cases hu : u.get? name with
        | none => simp [ht, hu] at hname
        | some child' =>
          -- what stands below the name has the same nodes on both sides
          simp only [ht, hu, Option.bind_some] at hbelow
          exact congrArg some (ih name child (mem_of_valueAt? ht) (h'.get? hu) hbelow)
    obtain ⟨children'⟩ := u
    exact congrArg IncludeTree.node hchildren

/-! ## Leaves -/

mutual

/-- The paths to the leaves; the root is the leaf of a tree without names. -/
def leaves : IncludeTree → List (List String)
  | node [] => [[]]
  | node (entry :: rest) => childLeaves (entry :: rest)

/-- The paths to the leaves below some names. -/
def childLeaves : List (String × IncludeTree) → List (List String)
  | [] => []
  | (name, child) :: rest => child.leaves.map (name :: ·) ++ childLeaves rest

end

/-- The leaves below a node are those below its children, with the name of the child in front. -/
theorem childLeaves_eq_flatMap (children : List (String × IncludeTree)) :
    childLeaves children = children.flatMap fun entry => entry.2.leaves.map (entry.1 :: ·) := by
  induction children with
  | nil => rfl
  | cons entry rest ih => rw [childLeaves, ih, List.flatMap_cons]

/-- The empty tree has its root as its leaf. -/
theorem leaves_of_isEmpty (h : t.isEmpty = true) : t.leaves = [[]] := by
  obtain ⟨children⟩ := t
  obtain rfl : children = [] := List.isEmpty_iff.1 h
  rfl

/-- Any other tree has the leaves of its children. -/
theorem leaves_of_not_isEmpty (h : ¬t.isEmpty = true) : t.leaves = childLeaves t.children := by
  obtain ⟨children⟩ := t
  cases children with
  | nil => exact absurd rfl h
  | cons entry rest => rfl

mutual

/-- The dotted paths are the paths to the leaves below the names at the root, dotted. -/
theorem paths_eq_childLeaves : ∀ t : IncludeTree,
    t.paths = (childLeaves t.children).map ".".intercalate
  | node children => by rw [paths, childPaths_eq_childLeaves children, IncludeTree.children]

/-- What is written is the leaves, with points between the names. -/
theorem childPaths_eq_childLeaves : ∀ children : List (String × IncludeTree),
    childPaths children = (childLeaves children).map ".".intercalate
  | [] => rfl
  | (name, child) :: rest => by
    rw [childPaths, childLeaves, List.map_append, childPaths_eq_childLeaves rest]
    congr 1
    split
    · rename_i hempty
      rw [leaves_of_isEmpty hempty]
      simp
    · rename_i hnames
      rw [paths_eq_childLeaves child, leaves_of_not_isEmpty hnames, List.map_map, List.map_map]
      apply List.map_congr_left
      intro path hpath
      -- below the name the path goes on, so there is a dot
      rw [childLeaves_eq_flatMap, List.mem_flatMap] at hpath
      obtain ⟨entry, -, hpath⟩ := hpath
      obtain ⟨path, -, rfl⟩ := List.mem_map.1 hpath
      exact String.intercalate_cons_cons.symm

end

/-- Below the names at the root stand the leaves that are not the root. -/
theorem mem_childLeaves {children : List (String × IncludeTree)}
    (names : children.Pairwise fun a b => a.1 < b.1)
    (below : ∀ name child, (name, child) ∈ children →
      ∀ path, path ∈ child.leaves ↔ child.find? path = some empty) :
    path ∈ childLeaves children ↔ path ≠ [] ∧ (node children).find? path = some empty := by
  rw [childLeaves_eq_flatMap, List.mem_flatMap]
  constructor
  · -- a leaf of a child is found below its name, as each name comes once
    rintro ⟨⟨name, child⟩, hmem, hpath⟩
    obtain ⟨rest, hrest, rfl⟩ := List.mem_map.1 hpath
    refine ⟨List.cons_ne_nil _ _, ?_⟩
    rw [find?, get?, IncludeTree.children, (mem_iff_valueAt? names).1 hmem, Option.bind_some]
    exact (below name child hmem rest).1 hrest
  · -- and what is found below a name is found in its child
    rintro ⟨hne, hfind⟩
    cases path with
    | nil => exact absurd rfl hne
    | cons name rest =>
      obtain ⟨child, hget, hrest⟩ := Option.bind_eq_some_iff.1 hfind
      have hmem := mem_of_valueAt? hget
      exact ⟨(name, child), hmem, List.mem_map_of_mem ((below name child hmem rest).2 hrest)⟩

/-- The leaves of a tree are its nodes without children. -/
theorem Ordered.mem_leaves (h : t.Ordered) : path ∈ t.leaves ↔ t.find? path = some empty := by
  induction h generalizing path with
  | @node children names below ih =>
    cases children with
    | nil =>
      change path ∈ [[]] ↔ empty.find? path = some empty
      rw [List.mem_singleton, find?_empty]
      by_cases hpath : path = [] <;> simp [hpath]
    | cons entry rest =>
      rw [leaves, mem_childLeaves names fun name child hmem path => ih name child hmem]
      refine and_iff_right_of_imp ?_
      rintro hfind rfl
      cases hfind

/-- The leaves below the root are its other nodes without children. -/
theorem Ordered.mem_childLeaves (h : t.Ordered) :
    path ∈ childLeaves t.children ↔ path ≠ [] ∧ t.find? path = some empty := by
  cases h with
  | node names below =>
    apply IncludeTree.mem_childLeaves names
    intro name child hmem path
    exact (below name child hmem).mem_leaves

/-- The leaves below some names come one after the other. -/
theorem childLeaves_ordered {children : List (String × IncludeTree)}
    (names : children.Pairwise fun a b => a.1 < b.1)
    (below : ∀ name child, (name, child) ∈ children → child.leaves.Pairwise (· < ·)) :
    (childLeaves children).Pairwise (· < ·) := by
  rw [childLeaves_eq_flatMap, List.pairwise_flatMap]
  constructor
  · rintro ⟨name, child⟩ hmem
    rw [List.pairwise_map]
    refine (below name child hmem).imp ?_
    intro path path' hlt
    exact List.cons_lt_cons_iff.2 (.inr ⟨rfl, hlt⟩)
  · refine names.imp ?_
    intro entry entry' hlt path hpath path' hpath'
    obtain ⟨_, -, rfl⟩ := List.mem_map.1 hpath
    obtain ⟨_, -, rfl⟩ := List.mem_map.1 hpath'
    exact List.cons_lt_cons_iff.2 (.inl hlt)

/-- The leaves of an ordered tree stand in order. -/
theorem Ordered.leaves_ordered (h : t.Ordered) : t.leaves.Pairwise (· < ·) := by
  induction h with
  | @node children names below ih =>
    cases children with
    | nil => exact List.pairwise_singleton _ _
    | cons entry rest => exact childLeaves_ordered names ih

/-- So do the leaves below its root. -/
theorem Ordered.childLeaves_ordered (h : t.Ordered) :
    (childLeaves t.children).Pairwise (· < ·) := by
  cases h with
  | node names below =>
    apply IncludeTree.childLeaves_ordered names
    intro name child hmem
    exact (below name child hmem).leaves_ordered

/-! ## Trees of paths -/

/-- A tree is known by the set of its paths. -/
theorem ofPaths_congr {paths paths' : List (List String)}
    (same : ∀ path, path ∈ paths' ↔ path ∈ paths) : ofPaths paths' = ofPaths paths := by
  apply (ordered_ofPaths paths').eq_of_nodes (ordered_ofPaths paths)
  intro names
  rw [isSome_find?_ofPaths, isSome_find?_ofPaths]
  simp only [same]

/-- A leaf of a tree of paths is a path that no other path prolongs. -/
theorem find?_ofPaths_eq_empty_iff {paths : List (List String)} (hpath : path ≠ []) :
    (ofPaths paths).find? path = some empty ↔
      path ∈ paths ∧ ∀ other ∈ paths, path <+: other → other = path := by
  have hnode := isSome_find?_ofPaths paths
  constructor
  · intro hleaf
    -- a path that goes on would have a node below the leaf
    have hlast : ∀ other ∈ paths, path <+: other → other = path := by
      rintro other hother ⟨rest, rfl⟩
      cases rest with
      | nil => exact List.append_nil path
      | cons name rest =>
        have hbelow := (hnode (path ++ name :: rest)).2 (.inr ⟨_, hother, List.prefix_refl _⟩)
        rw [find?_append, hleaf, Option.bind_some, find?_empty] at hbelow
        cases hbelow
    have hsome : ((ofPaths paths).find? path).isSome := by rw [hleaf]; rfl
    obtain ⟨other, hother, hway⟩ := ((hnode path).1 hsome).resolve_left hpath
    exact ⟨hlast other hother hway ▸ hother, hlast⟩
  · rintro ⟨hmem, hlast⟩
    have hsome := (hnode path).2 (.inr ⟨path, hmem, List.prefix_refl _⟩)
    obtain ⟨child, hchild⟩ := Option.isSome_iff_exists.1 hsome
    have hempty : child = empty := by
      apply eq_empty_of_find?
      intro name
      rw [Bool.eq_false_iff]
      intro hname
      have hbelow : ((ofPaths paths).find? (path ++ [name])).isSome := by
        rw [find?_append, hchild]
        exact hname
      obtain ⟨other, hother, hway⟩ := ((hnode _).1 hbelow).resolve_left (by simp)
      have hsame := hlast other hother ((List.prefix_append path [name]).trans hway)
      have hlength := (hsame ▸ hway).length_le
      rw [List.length_append, List.length_singleton] at hlength
      omega
    rw [hchild, hempty]

/-- A tree of paths has the prefixes of the paths as its nodes, whatever the order of the paths and
their repetitions, and it lists the paths that no other path prolongs, in order and each once. -/
theorem ofPaths_is_prefix_closure (paths : List (List String)) :
    (∀ names, ((ofPaths paths).find? names).isSome ↔ names = [] ∨ ∃ path ∈ paths, names <+: path) ∧
      (∀ paths', (∀ path, path ∈ paths' ↔ path ∈ paths) → ofPaths paths' = ofPaths paths) ∧
      ∃ listed : List (List String), listed.Pairwise (· < ·) ∧
        (∀ path, path ∈ listed ↔
          path ∈ paths ∧ path ≠ [] ∧ ∀ other ∈ paths, path <+: other → other = path) ∧
        (ofPaths paths).paths = listed.map ".".intercalate := by
  have hordered := ordered_ofPaths paths
  refine ⟨isSome_find?_ofPaths paths, fun _ same => ofPaths_congr same,
    childLeaves (ofPaths paths).children, hordered.childLeaves_ordered, ?_, paths_eq_childLeaves _⟩
  intro path
  rw [hordered.mem_childLeaves, and_left_comm]
  refine and_congr_right ?_
  intro hpath
  exact find?_ofPaths_eq_empty_iff hpath

/-- Among the articles, their tags and the groups, the tags and the groups are listed. -/
theorem articlesAndGroups_prefix_closure :
    (∀ path, path ∈ [["groups"], ["articles", "tags"], ["articles"], ["groups"]] ↔
      path ∈ [["articles"], ["articles", "tags"], ["groups"]]) ∧
    ofPaths [["groups"], ["articles", "tags"], ["articles"], ["groups"]] =
      ofPaths [["articles"], ["articles", "tags"], ["groups"]] ∧
    (ofPaths [["articles"], ["articles", "tags"], ["groups"]]).paths = ["articles.tags", "groups"] := by
  have hsame : ∀ path, path ∈ [["groups"], ["articles", "tags"], ["articles"], ["groups"]] ↔
      path ∈ [["articles"], ["articles", "tags"], ["groups"]] := by
    intro path
    simp only [List.mem_cons, List.not_mem_nil, or_false]
    grind
  exact ⟨hsame, (ofPaths_is_prefix_closure _).2.1 _ hsame, by decide +kernel⟩

end IncludeTree

end DocQuery
