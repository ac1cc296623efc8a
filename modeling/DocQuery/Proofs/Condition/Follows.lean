import DocQuery.Proofs.Build.Reach

namespace DocQuery

/-! # The relations that conditions follow

Read off the conditions alone: the relations over which they reach their columns, their rows and the
rows of their sub-queries. A through relation is followed over its hops, which are parts of it.
-/

variable {s : Schema}

namespace Relation

/-- The relation and all hops inside it. -/
def parts : Relation s → List (Relation s)
  | direct name owner definition link target => [direct name owner definition link target]
  | through name owner definition first second =>
    through name owner definition first second :: (first.parts ++ second.parts)

end Relation

/-- The relations on a path from the model, as far as they exist. -/
def Model.follows (m : Model s) : List String → List (Relation s)
  | [] => []
  | name :: path =>
    match m.relation? name with
    | some r => r :: r.target.follows path
    | none => []

namespace Condition

mutual

/-- The relations that the condition follows, those of its nested documents and of its sub-queries
among them. A relation that is only loaded with the result is not followed. -/
def follows : Condition s → List (Relation s)
  | .comparison _ _ columns _ => columns.flatMap fun c => c.model.follows c.path
  | .presence _ _ columns => columns.flatMap fun c => c.model.follows c.path
  | .membership _ _ columns _ => columns.flatMap fun c => c.model.follows c.path
  | .range _ _ columns _ _ => columns.flatMap fun c => c.model.follows c.path
  | .overlap _ _ columns _ => columns.flatMap fun c => c.model.follows c.path
  | .relationJoin targets => followsOfJoins targets
  | .derivedJoin _ relation subquery conditions =>
    relation :: (followsOfEach subquery ++ followsOfEach conditions)
  | .select targets => followsOfSelects targets
  | .order entries => entries.flatMap fun e => e.1.model.follows e.1.path
  | .limit _ => []
  | .offset _ => []

def followsOfEach : List (Condition s) → List (Relation s)
  | [] => []
  | condition :: conditions => condition.follows ++ followsOfEach conditions

def followsOfDocuments : List (List (Condition s)) → List (Relation s)
  | [] => []
  | document :: documents => followsOfEach document ++ followsOfDocuments documents

def followsOfJoins : List (Target s (List (List (Condition s)))) → List (Relation s)
  | [] => []
  | ⟨column, documents⟩ :: targets =>
    column.model.follows column.segments ++ followsOfDocuments documents ++ followsOfJoins targets

def followsOfSelects : List (Target s (List (Condition s))) → List (Relation s)
  | [] => []
  | ⟨column, conditions⟩ :: targets =>
    (if column.isColumn then column.model.follows column.path
      else if conditions.isEmpty then []
      else column.model.follows column.segments ++ followsOfEach conditions)
      ++ followsOfSelects targets

end

end Condition

namespace Model

variable {m n : Model s} {path rest : List String}

/-- A path is followed by following its front and then the rest. -/
theorem follows_append (hopen : OpenPath m path n) (rest : List String) :
    m.follows (path ++ rest) = m.follows path ++ n.follows rest := by
  induction hopen with
  | here m => rfl
  | step shown found _ ih =>
    simp only [List.cons_append, follows, found]
    rw [ih]

end Model

/-! ## Relations that cannot be joined -/

namespace Relation

theorem mem_parts_self (r : Relation s) : r ∈ r.parts := by
  cases r with
  | direct name owner definition link target => exact List.mem_singleton_self _
  | through name owner definition first second => exact List.mem_cons_self

/-- A relation without a link that can be joined has a kind that cannot be joined. -/
theorem kind_eq_unknown {name kind : String} {owner target : Model s}
    {definition : RelationDefinition}
    (found : owner.relation? name = some (.direct name owner definition (.unknown kind) target)) :
    definition.kind = .unknown kind := by
  have hlink := Model.link_of_relation? found
  -- no other kind has an unknown link
  unfold RelationDefinition.link? at hlink
  split at hlink
  · cases hlink
  · cases hlink
  · cases hlink
  · cases hlink
  · rename_i other hkind
    cases hlink
    exact hkind

end Relation

end DocQuery
