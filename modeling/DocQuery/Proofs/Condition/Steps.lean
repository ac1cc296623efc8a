import DocQuery.Proofs.Condition.Extent
import DocQuery.Proofs.Condition.Follows

namespace DocQuery

/-! # The steps of a build that may fail

Read off the conditions alone: the relations that a build joins and the functions that it calls, in
the order in which it comes to them. A step is at fault if the relation or one of its hops is of a
kind that cannot be joined, or if the function is called at another table than a base table.
-/

variable {s : Schema}

/-- A step of a build that may fail. -/
inductive BuildStep (s : Schema) where
  /-- A relation is joined, or a sub-query over it tied to its parent. -/
  | follow (relation : Relation s)
  /-- A function is called at a table. -/
  | call (function : FunctionName) (table : TablePath)

/-- The error of the first hop that cannot be joined. -/
def Relation.fault? : Relation s → Option Error
  | .direct name owner _ (.unknown kind) _ => some (.unknownRelationKind owner.name name kind)
  | .direct .. => none
  | .through _ _ _ first second => first.fault?.or second.fault?

namespace BuildStep

/-- The error of the step, if it is at fault. -/
def fault? : BuildStep s → Option Error
  | follow relation => relation.fault?
  | call function table =>
    if table.isRoot then none else some (.functionBelowRoot function.text table.text)

/-- The step calls no function below a base table. -/
def isAllowed : BuildStep s → Bool
  | follow _ => true
  | call _ table => table.isRoot

/-- Following all relations of a path from the model. -/
def followAll (m : Model s) (path : List String) : List (BuildStep s) := (m.follows path).map follow

/-- The error of the first step at fault. -/
def firstFault (steps : List (BuildStep s)) : Option Error := steps.findSome? fault?

@[simp] theorem firstFault_append (steps more : List (BuildStep s)) :
    firstFault (steps ++ more) = (firstFault steps).or (firstFault more) :=
  List.findSome?_append

@[simp] theorem firstFault_cons (step : BuildStep s) (steps : List (BuildStep s)) :
    firstFault (step :: steps) = step.fault?.or (firstFault steps) := by
  rw [firstFault, List.findSome?_cons]
  cases step.fault? <;> rfl

/-- A function below a base table is at fault. -/
theorem firstFault_ne_none_of_not_allowed {steps : List (BuildStep s)}
    (h : steps.all isAllowed = false) : firstFault steps ≠ none := by
  induction steps with
  | nil => cases h
  | cons step steps ih =>
    rw [List.all_cons, Bool.and_eq_false_iff] at h
    rw [firstFault_cons]
    intro hnone
    rw [Option.or_eq_none_iff] at hnone
    rcases h with hstep | hsteps
    · -- following a relation is always allowed, so it is a call below a base table
      cases step with
      | follow relation => cases hstep
      | call function table =>
        rw [fault?, if_neg (by simpa [isAllowed] using hstep)] at hnone
        cases hnone.1
    · exact ih hsteps hnone.2

theorem followAll_all_isAllowed (m : Model s) (path : List String) :
    (followAll m path).all isAllowed = true := by
  simp [followAll, isAllowed]

end BuildStep

namespace Condition

open BuildStep

mutual

/-- The steps of building the condition at a table, where the build has come as far as `p`. -/
def steps : Condition s → TablePath → Progress → List (BuildStep s)
  | .comparison _ _ columns _, _, _ => columns.flatMap fun c => followAll c.model c.path
  | .presence _ _ columns, _, _ => columns.flatMap fun c => followAll c.model c.path
  | .membership _ _ columns _, _, _ => columns.flatMap fun c => followAll c.model c.path
  | .range _ _ columns _ _, _, _ => columns.flatMap fun c => followAll c.model c.path
  | .overlap _ _ columns _, _, _ => columns.flatMap fun c => followAll c.model c.path
  | .relationJoin targets, table, p => stepsOfJoins targets table p
  | .derivedJoin _ relation subquery conditions, table, p =>
    let path := Draft.freePath p.derived table relation.name
    let inner := advanceEach subquery (.root relation.target.table) p.nested
    stepsOfEach subquery (.root relation.target.table) p.nested ++
      follow relation :: stepsOfEach conditions path (p.claim inner path)
  | .select targets, table, p => stepsOfSelects targets table p
  | .order entries, table, _ =>
    call .order table :: entries.flatMap fun e => followAll e.1.model e.1.path
  | .limit _, table, _ => [call .limit table]
  | .offset _, table, _ => [call .offset table]

def stepsOfEach : List (Condition s) → TablePath → Progress → List (BuildStep s)
  | [], _, _ => []
  | condition :: conditions, table, p =>
    condition.steps table p ++ stepsOfEach conditions table (condition.advance table p)

def stepsOfDocuments : List (List (Condition s)) → TablePath → Progress → List (BuildStep s)
  | [], _, _ => []
  | document :: documents, table, p =>
    stepsOfEach document table p ++ stepsOfDocuments documents table (advanceEach document table p)

def stepsOfJoins : List (Target s (List (List (Condition s)))) → TablePath → Progress →
    List (BuildStep s)
  | [], _, _ => []
  | ⟨column, documents⟩ :: targets, table, p =>
    followAll column.model column.segments ++ stepsOfDocuments documents (table.join column.segments) p
      ++ stepsOfJoins targets table (advanceDocuments documents (table.join column.segments) p)

/-- A relation is only joined for the conditions on its rows. -/
def stepsOfSelects : List (Target s (List (Condition s))) → TablePath → Progress →
    List (BuildStep s)
  | [], _, _ => []
  | ⟨column, conditions⟩ :: targets, table, p =>
    (if column.isColumn then followAll column.model column.path
      else if conditions.isEmpty then []
      else followAll column.model column.segments
        ++ stepsOfEach conditions (table.join column.segments) p)
      ++ stepsOfSelects targets table (advanceEach conditions (table.join column.segments) p)

end

end Condition

end DocQuery
