import Mathlib.Data.List.Forall2
import DocQuery.Proofs.Condition.Steps
import DocQuery.Proofs.Events.Traces

namespace DocQuery

/-! # Functions

`order`, `limit` and `offset` act on the statement of a whole query or sub-query. Read off the
conditions alone: where functions are called, which ones a query calls itself, and what its
statement and those embedded in it are limited to.

* `isRooted_eq`: a condition calls functions at the root only exactly if each of its steps is
  allowed.
* `Pages.limit`: and `Pages.offset`: the numbers of a statement are those of the last calls.
-/

open BuildStep

variable {s : Schema}

namespace Condition

/-! ## Where functions are called -/

mutual

/-- Functions are called in documents about base tables only; `root` says that the condition is in
one. The documents about `self`, which is the column without segments, are about the same table, the
first document of a sub-equal-join is about the base table of its sub-query, and all other nested
documents are about rows further on. A column that is selected has no document. -/
def isRooted (root : Bool) : Condition s → Bool
  | .relationJoin targets => isRootedJoins root targets
  | .derivedJoin _ _ subquery conditions => isRootedEach true subquery && isRootedEach false conditions
  | .select targets => isRootedSelects root targets
  | .order _ => root
  | .limit _ => root
  | .offset _ => root
  | _ => true

def isRootedEach (root : Bool) : List (Condition s) → Bool
  | [] => true
  | condition :: conditions => condition.isRooted root && isRootedEach root conditions

def isRootedDocuments (root : Bool) : List (List (Condition s)) → Bool
  | [] => true
  | document :: documents => isRootedEach root document && isRootedDocuments root documents

def isRootedJoins (root : Bool) : List (Target s (List (List (Condition s)))) → Bool
  | [] => true
  | ⟨column, documents⟩ :: targets =>
    isRootedDocuments (root && column.segments.isEmpty) documents && isRootedJoins root targets

def isRootedSelects (root : Bool) : List (Target s (List (Condition s))) → Bool
  | [] => true
  | ⟨column, conditions⟩ :: targets =>
    (column.isColumn || isRootedEach (root && column.segments.isEmpty) conditions)
      && isRootedSelects root targets

end

/-! ## The functions of a query -/

mutual

/-- The functions that the condition calls on the statement that it is built into, in document
order. Those of first documents of sub-equal-joins are called on statements of their own. -/
def calls : Condition s → List (Condition s)
  | .relationJoin targets => callsOfJoins targets
  | .derivedJoin _ _ _ conditions => callsOfEach conditions
  | .select targets => callsOfSelects targets
  | .order entries => [.order entries]
  | .limit n => [.limit n]
  | .offset n => [.offset n]
  | _ => []

def callsOfEach : List (Condition s) → List (Condition s)
  | [] => []
  | condition :: conditions => condition.calls ++ callsOfEach conditions

def callsOfDocuments : List (List (Condition s)) → List (Condition s)
  | [] => []
  | document :: documents => callsOfEach document ++ callsOfDocuments documents

def callsOfJoins : List (Target s (List (List (Condition s)))) → List (Condition s)
  | [] => []
  | ⟨_, documents⟩ :: targets => callsOfDocuments documents ++ callsOfJoins targets

def callsOfSelects : List (Target s (List (Condition s))) → List (Condition s)
  | [] => []
  | ⟨_, conditions⟩ :: targets => callsOfEach conditions ++ callsOfSelects targets

end

def limit? : Condition s → Option Nat
  | .limit n => some n
  | _ => none

def offset? : Condition s → Option Nat
  | .offset n => some n
  | _ => none

/-- The number of the last call that has one. -/
def lastOf (number? : Condition s → Option Nat) (calls : List (Condition s)) : Option Nat :=
  (calls.filterMap number?).getLast?

/-- The number of the last call of `limit`. -/
def lastLimit (calls : List (Condition s)) : Option Nat := lastOf limit? calls

/-- The number of the last call of `offset`. -/
def lastOffset (calls : List (Condition s)) : Option Nat := lastOf offset? calls

/-- The last number of all calls is that of the later ones, if they give one. -/
theorem lastOf_append (number? : Condition s → Option Nat) (calls more : List (Condition s)) :
    lastOf number? (calls ++ more) = (lastOf number? more).or (lastOf number? calls) := by
  rw [lastOf, List.filterMap_append, List.getLast?_append, lastOf, lastOf]

/-- The statement is limited as the last calls of the conditions' own query say, and so are the
statements embedded in it, by the calls of their own sub-queries. -/
inductive Pages : List (Condition s) → Statement → Prop where
  | intro {conditions : List (Condition s)} {statement : Statement}
      (limit : statement.limit = lastLimit (callsOfEach conditions))
      (offset : statement.offset = lastOffset (callsOfEach conditions))
      (inner : List.Forall₂ (fun subquery => Pages subquery.2) (subqueriesOfEach conditions)
        statement.derived) : Pages conditions statement

/-- A statement is limited by the last limit that its query calls. -/
theorem Pages.limit {conditions : List (Condition s)} {statement : Statement}
    (h : Pages conditions statement) : statement.limit = lastLimit (callsOfEach conditions) := by
  cases h with
  | intro limit offset inner => exact limit

/-- A statement starts at the last offset that its query calls. -/
theorem Pages.offset {conditions : List (Condition s)} {statement : Statement}
    (h : Pages conditions statement) : statement.offset = lastOffset (callsOfEach conditions) := by
  cases h with
  | intro limit offset inner => exact offset

/-- The embedded statements have the limits of the sub-queries, in their order. -/
theorem Pages.limits_derived {conditions : List (Condition s)} {statement : Statement}
    (h : Pages conditions statement) : statement.derived.map Statement.limit =
      (subqueriesOfEach conditions).map fun subquery => lastLimit (callsOfEach subquery.2) := by
  cases h with
  | intro limit offset inner =>
    generalize subqueriesOfEach conditions = subqueries at inner ⊢
    generalize statement.derived = statements at inner ⊢
    induction inner with
    | nil => rfl
    | cons hpages _ ih => rw [List.map_cons, List.map_cons, hpages.limit, ih]

/-! ## Steps -/

/-- What is below a table is not the root. -/
theorem isRoot_child {table : TablePath} (h : table.steps ≠ []) (step : PathStep) :
    (table.child step).isRoot = false := by
  have hpos := List.length_pos_iff.2 h
  simp only [TablePath.isRoot, TablePath.child, List.length_append, List.length_singleton,
    decide_eq_false_iff_not]
  omega

/-- Only an empty path leads from the root to the root. -/
theorem isRoot_join {table : TablePath} (h : table.steps ≠ []) (path : List String) :
    (table.join path).isRoot = (table.isRoot && path.isEmpty) := by
  have hpos := List.length_pos_iff.2 h
  cases path with
  | nil => simp
  | cons name path =>
    simp only [TablePath.isRoot, TablePath.join, List.length_append, List.length_map, List.length_cons,
      List.isEmpty_cons, Bool.and_false, decide_eq_false_iff_not]
    omega

/-- A path with steps keeps them. -/
theorem steps_join_ne_nil {table : TablePath} (h : table.steps ≠ []) (path : List String) :
    (table.join path).steps ≠ [] := by
  simp [TablePath.join, h]

/-- A child has a step. -/
theorem steps_child_ne_nil (table : TablePath) (step : PathStep) : (table.child step).steps ≠ [] := by
  simp [TablePath.child]

/-- Following relations is allowed everywhere. -/
theorem followAll_flatMap_all_isAllowed {ι : Type} (entries : List ι) (model : ι → Model s)
    (path : ι → List String) :
    (entries.flatMap fun i => followAll (model i) (path i)).all isAllowed = true := by
  simp [List.all_flatMap, followAll_all_isAllowed]

mutual

/-- Functions are called in documents about base tables exactly if no step calls one below. -/
theorem isRooted_eq (c : Condition s) (table : TablePath) (p : Progress) (h : table.steps ≠ []) :
    c.isRooted table.isRoot = (c.steps table p).all isAllowed := by
  -- the five tests only follow relations, so nothing in them is forbidden
  cases c with
  | comparison rule template columns values =>
    exact (followAll_flatMap_all_isAllowed columns _ _).symm
  | presence rule template columns => exact (followAll_flatMap_all_isAllowed columns _ _).symm
  | membership rule template columns values =>
    exact (followAll_flatMap_all_isAllowed columns _ _).symm
  | range rule template columns low high => exact (followAll_flatMap_all_isAllowed columns _ _).symm
  | overlap rule template columns span => exact (followAll_flatMap_all_isAllowed columns _ _).symm
  | relationJoin targets => exact isRootedJoins_eq targets table p h
  -- a sub-query is a root of its own, and the conditions on its row are below a table
  | derivedJoin column relation subquery conditions =>
    have hpath : (Draft.freePath p.derived table relation.name).isRoot = false := isRoot_child h _
    have hsubquery := isRootedEach_eq subquery (.root relation.target.table) p.nested
        (by simp [TablePath.root])
    have hconditions := isRootedEach_eq conditions (Draft.freePath p.derived table relation.name)
      (p.claim (advanceEach subquery (.root relation.target.table) p.nested)
        (Draft.freePath p.derived table relation.name)) (steps_child_ne_nil table _)
    rw [hpath] at hconditions
    rw [isRooted, steps, List.all_append, List.all_cons, isAllowed, Bool.true_and, ← hsubquery,
      ← hconditions]
    rfl
  | select targets => exact isRootedSelects_eq targets table p h
  | order entries =>
    rw [isRooted, steps, List.all_cons, followAll_flatMap_all_isAllowed, Bool.and_true, isAllowed]
  | limit n => simp [isRooted, steps, isAllowed]
  | offset n => simp [isRooted, steps, isAllowed]

/-- Conditions call functions at the root exactly if all their steps are allowed. -/
theorem isRootedEach_eq (conditions : List (Condition s)) (table : TablePath) (p : Progress)
    (h : table.steps ≠ []) :
    isRootedEach table.isRoot conditions = (stepsOfEach conditions table p).all isAllowed := by
  cases conditions with
  | nil => rfl
  | cons condition conditions =>
    rw [isRootedEach, stepsOfEach, List.all_append, ← isRooted_eq condition table p h,
      ← isRootedEach_eq conditions table _ h]

/-- So do documents. -/
theorem isRootedDocuments_eq (documents : List (List (Condition s))) (table : TablePath) (p : Progress)
    (h : table.steps ≠ []) :
    isRootedDocuments table.isRoot documents = (stepsOfDocuments documents table p).all isAllowed := by
  cases documents with
  | nil => rfl
  | cons document documents =>
    rw [isRootedDocuments, stepsOfDocuments, List.all_append, ← isRootedEach_eq document table p h,
      ← isRootedDocuments_eq documents table _ h]

/-- So do the targets of a relation join, below the tables that they lead to. -/
theorem isRootedJoins_eq (targets : List (Target s (List (List (Condition s))))) (table : TablePath)
    (p : Progress) (h : table.steps ≠ []) :
    isRootedJoins table.isRoot targets = (stepsOfJoins targets table p).all isAllowed := by
  cases targets with
  | nil => rfl
  | cons target targets =>
    rcases target with ⟨column, documents⟩
    rw [isRootedJoins, stepsOfJoins, List.all_append, List.all_append, followAll_all_isAllowed,
      Bool.true_and, ← isRootedJoins_eq targets table _ h, ← isRoot_join h,
      isRootedDocuments_eq documents (table.join column.segments) p (steps_join_ne_nil h _)]

/-- So do the targets of a selection. -/
theorem isRootedSelects_eq (targets : List (Target s (List (Condition s)))) (table : TablePath)
    (p : Progress) (h : table.steps ≠ []) :
    isRootedSelects table.isRoot targets = (stepsOfSelects targets table p).all isAllowed := by
  cases targets with
  | nil => rfl
  | cons target targets =>
    rcases target with ⟨column, conditions⟩
    rw [isRootedSelects, stepsOfSelects, List.all_append, isRootedSelects_eq targets table _ h]
    congr 1
    split
    · rename_i hcolumn
      rw [hcolumn, followAll_all_isAllowed, Bool.true_or]
    · rename_i hcolumn
      rw [Bool.eq_false_iff.2 hcolumn, Bool.false_or]
      split
      · rename_i hempty
        rw [List.isEmpty_iff.1 hempty]
        rfl
      · rw [List.all_append, followAll_all_isAllowed, Bool.true_and, ← isRoot_join h,
          isRootedEach_eq conditions (table.join column.segments) p (steps_join_ne_nil h _)]

end

end Condition

end DocQuery
