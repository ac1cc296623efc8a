import DocQuery.Proofs.Condition.Extent

namespace DocQuery

/-! # What conditions ask for on the way

Besides tests, conditions make a build load relations, list columns and embed sub-queries. These
events are read off the conditions in the order in which a build comes to them, each with the spot
at which it happens.

* `mem_requests_iff`: a build asks for what its events load.
* `events_account`: the events of a condition list its columns and embed its sub-queries.
-/

variable {s : Schema}

/-- Where conditions are read and built. -/
structure Spot where
  /-- The table at which they are built. -/
  table : TablePath
  /-- The relations followed from the root of the query. -/
  names : List String
  /-- On the way is a derived table that has not got the name of its relation, which was taken. -/
  renumbered : Bool
deriving DecidableEq, Repr

namespace Spot

/-- The spot at which a query is built. -/
def start (root : Model s) : Spot := ⟨.root root.table, [], false⟩

/-- The spot of the rows of relations. -/
def follow (spot : Spot) (relations : List String) : Spot :=
  ⟨spot.table.join relations, spot.names ++ relations, spot.renumbered⟩

/-- The spot of the row that a sub-query over a relation picks, where `claimed` are the derived
tables so far. -/
def derive (spot : Spot) (claimed : List TablePath) (relation : String) : Spot :=
  ⟨Draft.freePath claimed spot.table relation, spot.names ++ [relation],
    spot.renumbered || decide (spot.table.child (.derived relation) ∈ claimed)⟩

/-- The spot of a sub-query over a relation. -/
def nest (spot : Spot) (relation : Relation s) : Spot :=
  ⟨.root relation.target.table, spot.names ++ [relation.name], spot.renumbered⟩

end Spot

/-- What a build does besides testing rows. -/
inductive Event (s : Schema) where
  /-- The relation whose rows are at the spot is loaded with the result. -/
  | load (spot : Spot)
  /-- A column of this name enters the select list. -/
  | list (name : String)
  /-- A sub-query over the relation is embedded. Its own events are inside. -/
  | embed (relation : Relation s) (subquery : List (Condition s)) (inner : List (Event s))

namespace Condition

mutual

/-- The events of building the condition at a spot. -/
def events : Condition s → Spot → Progress → List (Event s)
  | .relationJoin targets, spot, p => eventsOfJoins targets spot p
  | .derivedJoin _ relation subquery conditions, spot, p =>
    let row := spot.derive p.derived relation.name
    let inner := advanceEach subquery (.root relation.target.table) p.nested
    .embed relation subquery (eventsOfEach subquery (spot.nest relation) p.nested) ::
      eventsOfEach conditions row (p.claim inner row.table)
  | .select targets, spot, p => eventsOfSelects targets spot p
  | .order entries, _, _ =>
    -- columns of the table itself are selected with its rows
    (entries.filter fun e => e.1.path ≠ []).map fun e => .list (e.1.name.getD "")
  | .comparison .., _, _ => []
  | .presence .., _, _ => []
  | .membership .., _, _ => []
  | .range .., _, _ => []
  | .overlap .., _, _ => []
  | .limit _, _, _ => []
  | .offset _, _, _ => []

def eventsOfEach : List (Condition s) → Spot → Progress → List (Event s)
  | [], _, _ => []
  | condition :: conditions, spot, p =>
    condition.events spot p ++ eventsOfEach conditions spot (condition.advance spot.table p)

def eventsOfDocuments : List (List (Condition s)) → Spot → Progress → List (Event s)
  | [], _, _ => []
  | document :: documents, spot, p =>
    eventsOfEach document spot p
      ++ eventsOfDocuments documents spot (advanceEach document spot.table p)

def eventsOfJoins : List (Target s (List (List (Condition s)))) → Spot → Progress → List (Event s)
  | [], _, _ => []
  | ⟨column, documents⟩ :: targets, spot, p =>
    eventsOfDocuments documents (spot.follow column.segments) p
      ++ eventsOfJoins targets spot (advanceDocuments documents (spot.table.join column.segments) p)

def eventsOfSelects : List (Target s (List (Condition s))) → Spot → Progress → List (Event s)
  | [], _, _ => []
  | ⟨column, conditions⟩ :: targets, spot, p =>
    (if column.isColumn then .list (column.name.getD "") else .load (spot.follow column.segments))
      :: eventsOfEach conditions (spot.follow column.segments) p
      ++ eventsOfSelects targets spot (advanceEach conditions (spot.table.join column.segments) p)

end

end Condition

/-! ## Requests -/

/-- An entry that asks for a relation to be loaded, at the spot of the relation's rows. -/
structure Request extends Spot where
  /-- The entry stands in a sub-query, at any depth. -/
  inSubquery : Bool
deriving DecidableEq, Repr

namespace Event

mutual

/-- The entries that ask for a relation, those of sub-queries among them. -/
def requests : Event s → List Request
  | load spot => [⟨spot, false⟩]
  | list _ => []
  | embed _ _ inner => (requestsOfEach inner).map fun r => { r with inSubquery := true }

def requestsOfEach : List (Event s) → List Request
  | [] => []
  | event :: events => event.requests ++ requestsOfEach events

end

/-- Outside of sub-queries, what is asked for is loaded. -/
theorem mem_requests_iff {events : List (Event s)} {spot : Spot} :
    ⟨spot, false⟩ ∈ requestsOfEach events ↔ .load spot ∈ events := by
  induction events with
  | nil =>
    rw [requestsOfEach]
    exact iff_of_false List.not_mem_nil List.not_mem_nil
  | cons event events ih =>
    rw [requestsOfEach, List.mem_append, ih, List.mem_cons]
    refine or_congr_left ?_
    -- an embedded sub-query's requests are marked as such, so none of them is this one
    cases event with
    | load other =>
      rw [requests, List.mem_singleton, Request.mk.injEq, Event.load.injEq, and_iff_left rfl]
    | list name => simp [requests]
    | embed relation subquery inner => simp [requests]

/-- The name that the event lists. -/
def listed? : Event s → Option String
  | list name => some name
  | _ => none

/-- The sub-query that the event embeds. -/
def embedded? : Event s → Option (Relation s × List (Condition s))
  | embed relation subquery _ => some (relation, subquery)
  | _ => none

end Event

namespace Condition

/-- The entries of a query that ask for a relation to be loaded, in order and at any depth. -/
def requests (root : Model s) (conditions : List (Condition s)) : List Request :=
  Event.requestsOfEach (eventsOfEach conditions (.start root) ⟨0, []⟩)

/-! ## Names in the select list -/

mutual

/-- The names that building the condition puts into the select list of its statement. -/
def listed : Condition s → List String
  | .relationJoin targets => listedByJoins targets
  | .derivedJoin _ _ _ conditions => listedByEach conditions
  | .select targets => listedBySelects targets
  | .order entries => (entries.filter fun e => e.1.path ≠ []).map fun e => e.1.name.getD ""
  | _ => []

def listedByEach : List (Condition s) → List String
  | [] => []
  | condition :: conditions => condition.listed ++ listedByEach conditions

def listedByDocuments : List (List (Condition s)) → List String
  | [] => []
  | document :: documents => listedByEach document ++ listedByDocuments documents

def listedByJoins : List (Target s (List (List (Condition s)))) → List String
  | [] => []
  | ⟨_, documents⟩ :: targets => listedByDocuments documents ++ listedByJoins targets

def listedBySelects : List (Target s (List (Condition s))) → List String
  | [] => []
  | ⟨column, conditions⟩ :: targets =>
    (if column.isColumn then [column.name.getD ""] else []) ++ listedByEach conditions
      ++ listedBySelects targets

end

/-! ## Events and what they are read off -/

/-- The events list what the conditions list and embed the sub-queries that the conditions embed. -/
structure Accounts (events : List (Event s)) (listed : List String)
    (subqueries : List (Relation s × List (Condition s))) : Prop where
  listed_eq : events.filterMap Event.listed? = listed
  embedded_eq : events.filterMap Event.embedded? = subqueries

theorem Accounts.append {events events' : List (Event s)} {listed listed' : List String}
    {subqueries subqueries' : List (Relation s × List (Condition s))}
    (h : Accounts events listed subqueries) (h' : Accounts events' listed' subqueries') :
    Accounts (events ++ events') (listed ++ listed') (subqueries ++ subqueries') where
  listed_eq := by rw [List.filterMap_append, h.listed_eq, h'.listed_eq]
  embedded_eq := by rw [List.filterMap_append, h.embedded_eq, h'.embedded_eq]

theorem accounts_nil : Accounts (s := s) [] [] [] := ⟨rfl, rfl⟩

theorem accounts_lists (names : List String) :
    Accounts (s := s) (names.map .list) names [] := by
  induction names with
  | nil => exact accounts_nil
  | cons name names ih =>
    refine ⟨?_, ?_⟩
    · exact congrArg (name :: ·) ih.listed_eq
    · exact ih.embedded_eq

mutual

theorem events_account : ∀ (c : Condition s) (spot : Spot) (p : Progress),
    Accounts (c.events spot p) c.listed c.subqueries
  | .relationJoin targets, spot, p => eventsOfJoins_account targets spot p
  | .derivedJoin _ relation subquery conditions, spot, p => by
    have hrows := eventsOfEach_account conditions (spot.derive p.derived relation.name)
      (p.claim (advanceEach subquery (.root relation.target.table) p.nested)
        (spot.derive p.derived relation.name).table)
    exact ⟨hrows.listed_eq, congrArg ((relation, subquery) :: ·) hrows.embedded_eq⟩
  | .select targets, spot, p => eventsOfSelects_account targets spot p
  -- an order lists the columns that lie behind a path
  | .order entries, _, _ => by
    have hlists := accounts_lists (s := s)
      ((entries.filter fun e => e.1.path ≠ []).map fun e => e.1.name.getD "")
    rw [List.map_map] at hlists
    exact hlists
  | .comparison .., _, _ => accounts_nil
  | .presence .., _, _ => accounts_nil
  | .membership .., _, _ => accounts_nil
  | .range .., _, _ => accounts_nil
  | .overlap .., _, _ => accounts_nil
  | .limit _, _, _ => accounts_nil
  | .offset _, _, _ => accounts_nil

theorem eventsOfEach_account : ∀ (conditions : List (Condition s)) (spot : Spot) (p : Progress),
    Accounts (eventsOfEach conditions spot p) (listedByEach conditions) (subqueriesOfEach conditions)
  | [], _, _ => accounts_nil
  | condition :: conditions, spot, p =>
    (events_account condition spot p).append (eventsOfEach_account conditions spot _)

theorem eventsOfDocuments_account : ∀ (documents : List (List (Condition s))) (spot : Spot)
    (p : Progress), Accounts (eventsOfDocuments documents spot p) (listedByDocuments documents)
      (subqueriesOfDocuments documents)
  | [], _, _ => accounts_nil
  | document :: documents, spot, p =>
    (eventsOfEach_account document spot p).append (eventsOfDocuments_account documents spot _)

theorem eventsOfJoins_account : ∀ (targets : List (Target s (List (List (Condition s))))) (spot : Spot)
    (p : Progress), Accounts (eventsOfJoins targets spot p) (listedByJoins targets)
      (subqueriesOfJoins targets)
  | [], _, _ => accounts_nil
  | ⟨_, documents⟩ :: targets, spot, p =>
    (eventsOfDocuments_account documents _ p).append (eventsOfJoins_account targets spot _)

theorem eventsOfSelects_account : ∀ (targets : List (Target s (List (Condition s)))) (spot : Spot)
    (p : Progress), Accounts (eventsOfSelects targets spot p) (listedBySelects targets)
      (subqueriesOfSelects targets)
  | [], _, _ => accounts_nil
  | ⟨column, conditions⟩ :: targets, spot, p => by
    have hfirst : Accounts (s := s)
        [if column.isColumn then .list (column.name.getD "") else .load (spot.follow column.segments)]
        (if column.isColumn then [column.name.getD ""] else []) [] := by
      split
      · exact ⟨rfl, rfl⟩
      · exact ⟨rfl, rfl⟩
    exact (hfirst.append (eventsOfEach_account conditions _ p)).append
      (eventsOfSelects_account targets spot _)

end

end Condition

end DocQuery
