import DocQuery.Proofs.Build.Run

namespace DocQuery

/-! # Changes that a build carries along

A step carries a change of drafts along if on the changed draft it does what it does on the draft,
whether it succeeds or fails. A change that neither reads nor writes what joins are made from is
carried along by every step that only joins tables, so it is left to show what becomes of the other
parts of a draft.

* `Matches.bind`: steps that match one after the other match together, and so for each way to put
  steps together.
* `Inert.carries_join`: joining a relation carries along what has nothing to do with joins; the
  lemmas behind it say so of whole columns and of includes.
* `Simulates.bind`: the same for runs that succeed, where the two steps may differ.
-/

open Draft

variable {s : Schema} {α β : Type} {f : Draft s → Draft s} {I : Draft s → Prop} {d : Draft s}

namespace Build

/-- On the changed draft the second step gives what the first gives on the draft, and leaves the
changed draft. If they succeed, what the first leaves keeps the invariant. -/
structure Matches (f : Draft s → Draft s) (I : Draft s → Prop) (step step' : Build s α) (d : Draft s) :
    Prop where
  runOn_eq : step'.runOn (f d) = ((step.runOn d).1, f (step.runOn d).2)
  kept : ∀ a e, step.Runs d a e → I e

/-- The step does the same on the changed draft. -/
abbrev Carries (f : Draft s → Draft s) (I : Draft s → Prop) (step : Build s α) (d : Draft s) : Prop :=
  Matches f I step step d

/-- A run on the draft is a run on the changed draft, with the same result. -/
theorem Matches.runs {step step' : Build s α} (h : Matches f I step step' d) {a : α} {e : Draft s}
    (hrun : step.Runs d a e) : step'.Runs (f d) a (f e) := by
  unfold Runs at hrun ⊢
  rw [h.runOn_eq, hrun]

theorem matches_pure (hd : I d) (a : α) : Matches f I (pure a) (pure a) d := by
  refine ⟨rfl, fun b e hrun => ?_⟩
  rcases runs_pure.1 hrun with ⟨_, rfl⟩
  exact hd

/-- A step that fails at once does so on every draft. -/
theorem matches_throw (error : Error) : Matches f I (throw error : Build s α) (throw error) d :=
  ⟨rfl, fun _ _ hrun => absurd hrun runs_throw⟩

/-- A step that changes the draft matches one that changes it in the same way behind `f`. -/
theorem matches_modify {g g' : Draft s → Draft s} (hg : g' (f d) = f (g d)) (hd : I (g d)) :
    Matches f I (modify g) (modify g') d := by
  refine ⟨congrArg (Prod.mk (Except.ok ())) hg, fun u e hrun => ?_⟩
  exact runs_modify.1 hrun ▸ hd

/-- A step that takes something from the draft takes the same from the changed draft. -/
theorem matches_modifyGet {g g' : Draft s → α × Draft s} (hg : g' (f d) = ((g d).1, f (g d).2))
    (hd : I (g d).2) : Matches f I (modifyGet g) (modifyGet g') d := by
  refine ⟨?_, fun a e hrun => ?_⟩
  · exact congrArg (fun r : α × Draft s => (Except.ok r.1, r.2)) hg
  · exact (runs_modifyGet.1 hrun).2 ▸ hd

/-- Steps that carry a change along do so one after the other. -/
theorem Matches.bind {step step' : Build s α} {next next' : α → Build s β}
    (h : Matches f I step step' d)
    (hnext : ∀ a e, step.Runs d a e → I e → Matches f I (next a) (next' a) e) :
    Matches f I (step >>= next) (step' >>= next') d := by
  constructor
  · rw [runOn_bind, runOn_bind, h.runOn_eq]
    cases hstep : step.runOn d with
    | mk result e =>
      cases result with
      | error error => rfl
      | ok a => exact (hnext a e hstep (h.kept a e hstep)).runOn_eq
  · intro b e hrun
    rcases runs_bind.1 hrun with ⟨a, d', hstep, hrest⟩
    exact (hnext a d' hstep (h.kept a d' hstep)).kept b e hrest

/-- A step that reads the draft goes on with the changed draft. -/
theorem matches_get {next next' : Draft s → Build s β} (h : Matches f I (next d) (next' (f d)) d) :
    Matches f I (get >>= next) (get >>= next') d := by
  have hget : ∀ (next : Draft s → Build s β) (d : Draft s),
      Build.runOn (get >>= next) d = (next d).runOn d := fun next d => runOn_bind _ _ d
  refine ⟨?_, fun b e hrun => ?_⟩
  · rw [hget, hget]
    exact h.runOn_eq
  · rcases runs_bind.1 hrun with ⟨_, _, hd, hrest⟩
    rcases runs_get.1 hd with ⟨rfl, rfl⟩
    exact h.kept b e hrest

/-- Both branches match, and the condition does not look at the draft. -/
theorem matches_ite {c : Prop} [Decidable c] {step step' other other' : Build s α}
    (h : Matches f I step step' d) (hother : Matches f I other other' d) :
    Matches f I (if c then step else other) (if c then step' else other') d := by
  split
  · exact h
  · exact hother

/-- A step on a draft of its own, which is changed too, leaves the outer draft alone. -/
theorem matches_within {sub : Draft s} {step step' : Build s α} {next next' : α × Draft s → Build s β}
    (h : Matches f I step step' sub)
    (hnext : ∀ a e, step.Runs sub a e → I e → Matches f I (next (a, e)) (next' (a, f e)) d) :
    Matches f I (within sub step >>= next) (within (f sub) step' >>= next') d := by
  cases hstep : step.runOn sub with
  | mk result e =>
    have hstep' := h.runOn_eq
    rw [hstep] at hstep'
    cases result with
    | error error =>
      -- a failure inside is a failure of the whole step
      have hfails : within sub step = throw error := by rw [within, hstep]
      have hfails' : within (f sub) step' = throw error := by rw [within, hstep']
      rw [hfails, hfails']
      exact (matches_throw error).bind fun _ _ hrun => absurd hrun runs_throw
    | ok a =>
      -- a result inside is handed on, and the outer draft is where it was
      have hgives : within sub step = pure (a, e) := by rw [within, hstep]
      have hgives' : within (f sub) step' = pure (a, f e) := by rw [within, hstep']
      rw [hgives, hgives', pure_bind, pure_bind]
      exact hnext a e hstep (h.kept a e hstep)

/-! ## Simulation

Where only the runs that succeed count, and on every draft, no invariant has to be carried along.
-/

/-- The second step does on changed drafts what the first does, with the same result. -/
def Simulates (f : Draft s → Draft s) (step step' : Build s α) : Prop :=
  ∀ d a e, step.Runs d a e → step'.Runs (f d) a (f e)

/-- A step that carries the change along simulates itself. -/
theorem simulates_of_carries {step : Build s α} (h : ∀ d, Carries f (fun _ => True) step d) :
    Simulates f step step :=
  fun d _ _ hrun => (h d).runs hrun

theorem simulates_pure (a : α) : Simulates f (pure a) (pure a) := by
  intro d b e h
  rw [runs_pure] at h ⊢
  rcases h with ⟨rfl, rfl⟩
  exact ⟨rfl, rfl⟩

/-- A step that fails is simulated by every step. -/
theorem simulates_throw (error : Error) (step' : Build s α) : Simulates f (throw error) step' := by
  intro d a e h
  exact absurd h runs_throw

/-- Steps that simulate others do so one after the other. -/
theorem Simulates.bind {step step' : Build s α} {next next' : α → Build s β}
    (h : Simulates f step step') (hnext : ∀ a, Simulates f (next a) (next' a)) :
    Simulates f (step >>= next) (step' >>= next') := by
  intro d b e hrun
  rw [runs_bind] at hrun ⊢
  rcases hrun with ⟨a, d', hstep, hrest⟩
  exact ⟨a, f d', h d a d' hstep, hnext a d' b e hrest⟩

/-- As `matches_modify`, on every draft. -/
theorem simulates_modify {g g' : Draft s → Draft s} (hg : ∀ d, g' (f d) = f (g d)) :
    Simulates f (modify g) (modify g') := by
  intro d u e hrun
  rw [runs_modify] at hrun ⊢
  rw [hg, hrun]

/-- As `matches_modifyGet`, on every draft. -/
theorem simulates_modifyGet {g g' : Draft s → α × Draft s}
    (hg : ∀ d, g' (f d) = ((g d).1, f (g d).2)) : Simulates f (modifyGet g) (modifyGet g') := by
  intro d a e hrun
  rw [runs_modifyGet] at hrun ⊢
  rcases hrun with ⟨rfl, rfl⟩
  rw [hg]
  exact ⟨rfl, rfl⟩

/-- A step that reads the draft goes on with the changed draft. -/
theorem simulates_get {next next' : Draft s → Build s β}
    (h : ∀ d, Simulates f (next d) (next' (f d))) : Simulates f (get >>= next) (get >>= next') := by
  intro d b e hrun
  rw [runs_bind] at hrun ⊢
  rcases hrun with ⟨a, d', hget, hrest⟩
  rw [runs_get] at hget
  rcases hget with ⟨rfl, rfl⟩
  exact ⟨f d, f d, runs_get.2 ⟨rfl, rfl⟩, h d d b e hrest⟩

theorem simulates_ite {c : Prop} [Decidable c] {step step' other other' : Build s α}
    (h : Simulates f step step') (hother : Simulates f other other') :
    Simulates f (if c then step else other) (if c then step' else other') := by
  split
  · exact h
  · exact hother

end Build

open Build

namespace Draft

/-- The change neither reads nor writes what joins and includes are made from, and these keep the
invariant. -/
structure Inert (f : Draft s → Draft s) (I : Draft s → Prop) : Prop where
  isJoined : ∀ d path, (f d).isJoined path = d.isJoined path
  aliasOf : ∀ d path, (f d).aliasOf path = ((d.aliasOf path).1, f (d.aliasOf path).2)
  setAlias : ∀ d path a, (f d).setAlias path a = f (d.setAlias path a)
  addJoin : ∀ d table tableAlias left key,
    (f d).addJoin (.table table tableAlias left key) = f (d.addJoin (.table table tableAlias left key))
  markJoined : ∀ d path model, (f d).markJoined path model = f (d.markJoined path model)
  addInclude : ∀ d path, (f d).addInclude path = f (d.addInclude path)
  aliasOf_kept : ∀ {d}, I d → ∀ path, I (d.aliasOf path).2
  setAlias_kept : ∀ {d}, I d → ∀ path other,
    I ((d.aliasOf other).2.setAlias path (d.aliasOf other).1)
  addJoin_kept : ∀ {d}, I d → ∀ table tableAlias left key,
    I (d.addJoin (.table table tableAlias left key))
  markJoined_kept : ∀ {d}, I d → ∀ path model, I (d.markJoined path model)
  addInclude_kept : ∀ {d}, I d → ∀ path, I (d.addInclude path)

namespace Inert

variable (hf : Inert f I)
include hf

/-! ## Joins -/

theorem carries_aliasOf (hd : I d) (path : TablePath) : Carries f I (modifyGet (·.aliasOf path)) d :=
  matches_modifyGet (hf.aliasOf d path) (hf.aliasOf_kept hd path)

/-- A column is named by its table's alias, and by nothing else of the draft. -/
theorem carries_columnAt (hd : I d) (path : TablePath) (name : String) :
    Carries f I (modifyGet (·.columnAt path name)) d := by
  refine matches_modifyGet ?_ (hf.aliasOf_kept hd path)
  simp only [columnAt, hf.aliasOf]

theorem carries_addJoin (hd : I d) (table tableAlias : String) (left : QualifiedColumn) (key : String) :
    Carries f I (modify (·.addJoin (.table table tableAlias left key))) d :=
  matches_modify (hf.addJoin d _ _ _ _) (hf.addJoin_kept hd _ _ _ _)

theorem carries_markJoined (hd : I d) (path : TablePath) (model : Model s) :
    Carries f I (modify (·.markJoined path model)) d :=
  matches_modify (hf.markJoined d path model) (hf.markJoined_kept hd path model)

/-- Each kind of link takes aliases and adds joins, or fails at once. -/
theorem carries_joinLink (hd : I d) (parent path : TablePath) (parentAlias name : String)
    (owner target : Model s) (link : Link) :
    Carries f I (joinLink parent path parentAlias name owner target link) d := by
  cases link with
  | hasMany foreignKey =>
    exact (hf.carries_aliasOf hd path).bind fun _ _ _ hd => hf.carries_addJoin hd _ _ _ _
  | belongsTo foreignKey =>
    exact (hf.carries_aliasOf hd path).bind fun _ _ _ hd => hf.carries_addJoin hd _ _ _ _
  | manyToMany joinTable foreignKey associationKey =>
    exact (hf.carries_aliasOf hd _).bind fun _ _ _ hd =>
      (hf.carries_aliasOf hd path).bind fun _ _ _ hd =>
      (hf.carries_addJoin hd _ _ _ _).bind fun _ _ _ hd => hf.carries_addJoin hd _ _ _ _
  | unknown kind => exact matches_throw _

/-- A relation is joined on the changed draft as on the draft, through each of its hops. -/
theorem carries_join (relation : Relation s) (hd : I d) (path : TablePath) :
    Carries f I (join relation path) d := by
  -- A hop of a through relation is joined in turn, so the induction is on the relation.
  induction relation generalizing d path with
  | direct name owner definition link target =>
    unfold join
    refine matches_get ?_
    rw [hf.isJoined]
    refine matches_ite (matches_pure hd _) ?_
    cases path.parent? with
    | none => exact matches_throw _
    | some parent =>
      exact (hf.carries_aliasOf hd parent).bind fun _ _ _ hd =>
        (hf.carries_joinLink hd _ _ _ _ _ _ _).bind fun _ _ _ hd => hf.carries_markJoined hd _ _
  | through name owner definition first second ihFirst ihSecond =>
    unfold join
    refine matches_get ?_
    rw [hf.isJoined]
    refine matches_ite (matches_pure hd _) ?_
    cases path.parent? with
    | none => exact matches_throw _
    | some parent =>
      refine (hf.carries_aliasOf hd parent).bind fun _ _ _ hd => (ihFirst hd _).bind fun _ _ _ hd =>
        (ihSecond hd _).bind fun _ _ _ hd => (hf.carries_aliasOf hd _).bind fun a e hrun _ => ?_
      -- the path takes over the alias that its last hop has got
      rcases runs_modifyGet.1 hrun with ⟨rfl, rfl⟩
      exact (matches_modify (hf.setAlias _ _ _) (hf.setAlias_kept hd _ _)).bind fun _ _ _ hd =>
        hf.carries_markJoined hd _ _

/-- The hops are joined one below the other, whatever table the first starts at. -/
theorem carries_joinHops (hd : I d) (table : TablePath) (hops : List (Hop s)) :
    Carries f I (joinHops table hops) d := by
  induction hops generalizing d with
  | nil => exact matches_pure hd _
  | cons hop hops ih => exact (hf.carries_join hop.relation hd _).bind fun _ _ _ hd => ih hd

/-- A column is joined by its hops, which may end in an error. -/
theorem carries_joinColumn (hd : I d) (table : TablePath) (column : Column s) :
    Carries f I (joinColumn table column) d := by
  unfold joinColumn
  generalize column.hops = r
  rcases r with ⟨hops, error⟩
  refine (hf.carries_joinHops hd table hops).bind fun _ _ _ hd => ?_
  cases error with
  | none => exact matches_pure hd _
  | some e => exact matches_throw _

/-- Columns are joined one by one. -/
theorem carries_joinColumns (hd : I d) (table : TablePath) (columns : List (Column s)) :
    Carries f I (Condition.joinColumns table columns) d := by
  induction columns generalizing d with
  | nil => exact matches_pure hd _
  | cons column columns ih =>
    exact (hf.carries_joinColumn hd table column).bind fun path _ _ hd =>
      (hf.carries_columnAt hd path _).bind fun _ _ _ hd => (ih hd).bind fun _ _ _ hd => matches_pure hd _

/-- A relation that ends a column is joined behind the hops of the column. -/
theorem carries_joinRelation (hd : I d) (table : TablePath) (column : Column s) :
    Carries f I (Condition.joinRelation table column) d := by
  unfold Condition.joinRelation
  refine (hf.carries_joinColumn hd table column).bind fun reached _ _ hd => ?_
  cases column.name with
  | none => exact matches_pure hd _
  | some name =>
    cases column.relation? with
    | none => exact matches_throw _
    | some relation =>
      exact (hf.carries_join relation hd _).bind fun _ _ _ hd => matches_pure hd _

/-! ## Includes -/

theorem carries_addInclude (hd : I d) (path : TablePath) :
    Carries f I (modify (·.addInclude path)) d :=
  matches_modify (hf.addInclude d path) (hf.addInclude_kept hd path)

/-- Every prefix of a path is included. -/
theorem carries_includeHops (hd : I d) (table : TablePath) (hops : List (Hop s)) :
    Carries f I (Condition.includeHops table hops) d := by
  induction hops generalizing d with
  | nil => exact matches_pure hd _
  | cons hop hops ih =>
    exact (hf.carries_addInclude hd _).bind fun _ _ _ hd => ih hd

/-- Asking for a relation changes the includes only. -/
theorem carries_includeRelation (hd : I d) (table : TablePath) (column : Column s) :
    Carries f I (Condition.includeRelation table column) d := by
  unfold Condition.includeRelation
  generalize column.hops = r
  rcases r with ⟨hops, error⟩
  refine (hf.carries_includeHops hd table hops).bind fun _ _ _ hd => ?_
  cases error with
  | none => exact hf.carries_addInclude hd _
  | some e => exact matches_throw _

end Inert

/-! ## Changes without an invariant -/

namespace Inert

variable (hf : Inert f fun _ => True)
include hf

theorem simulates_aliasOf (path : TablePath) :
    Simulates f (modifyGet (·.aliasOf path)) (modifyGet (·.aliasOf path)) :=
  simulates_of_carries fun _ => hf.carries_aliasOf trivial path

theorem simulates_columnAt (path : TablePath) (name : String) :
    Simulates f (modifyGet (·.columnAt path name)) (modifyGet (·.columnAt path name)) :=
  simulates_of_carries fun _ => hf.carries_columnAt trivial path name

theorem simulates_joinColumn (table : TablePath) (column : Column s) :
    Simulates f (joinColumn table column) (joinColumn table column) :=
  simulates_of_carries fun _ => hf.carries_joinColumn trivial table column

theorem simulates_joinColumns (table : TablePath) (columns : List (Column s)) :
    Simulates f (Condition.joinColumns table columns) (Condition.joinColumns table columns) :=
  simulates_of_carries fun _ => hf.carries_joinColumns trivial table columns

theorem simulates_joinRelation (table : TablePath) (column : Column s) :
    Simulates f (Condition.joinRelation table column) (Condition.joinRelation table column) :=
  simulates_of_carries fun _ => hf.carries_joinRelation trivial table column

theorem simulates_includeRelation (table : TablePath) (column : Column s) :
    Simulates f (Condition.includeRelation table column) (Condition.includeRelation table column) :=
  simulates_of_carries fun _ => hf.carries_includeRelation trivial table column

end Inert

end Draft

end DocQuery
