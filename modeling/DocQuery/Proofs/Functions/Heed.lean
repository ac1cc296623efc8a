import DocQuery.Proofs.Build.Refusal
import DocQuery.Proofs.Draft.Passed

namespace DocQuery

/-! # Builds that heed their steps

`Heeds step d steps post` says how a run of the step on the draft ends: with the error of the first
of `steps` that is at fault, and otherwise with a result and a draft that are as `post` says. Steps
one after the other are put together by `Heeds.bind`.

* `Heeds.bind`: steps one after the other heed what each of them heeds, in order.
* `heeds_join`: joining a relation fails exactly if the relation is at fault.
-/

open Build BuildStep

variable {s : Schema}

namespace Build

variable {α β : Type} {d e : Draft s} {steps steps' : List (BuildStep s)}

/-- The step fails with the first fault of `steps`; where none is at fault, it ends as `post` says. -/
structure Heeds (step : Build s α) (d : Draft s) (steps : List (BuildStep s))
    (post : α → Draft s → Prop) : Prop where
  runs : ∀ {a : α} {e : Draft s}, step.Runs d a e → firstFault steps = none ∧ post a e
  fails : ∀ {e : Error}, step.Fails d e → firstFault steps = some e

namespace Heeds

variable {step : Build s α} {next : α → Build s β} {post : α → Draft s → Prop}
  {post' : β → Draft s → Prop}

/-- Less may be said of how a run ends. -/
theorem mono (h : Heeds step d steps post) {post' : α → Draft s → Prop}
    (hpost : ∀ a e, step.Runs d a e → post a e → post' a e) : Heeds step d steps post' where
  runs hrun := ⟨(h.runs hrun).1, hpost _ _ hrun (h.runs hrun).2⟩
  fails := h.fails

/-- The steps can be written in another way. -/
theorem congr (h : Heeds step d steps post) (hsteps : steps = steps') : Heeds step d steps' post :=
  hsteps ▸ h

/-- What follows a step is only come to if the step is not at fault. -/
theorem bind (h : Heeds step d steps post)
    (hnext : ∀ a e, step.Runs d a e → post a e → Heeds (next a) e steps' post') :
    Heeds (step >>= next) d (steps ++ steps') post' where
  runs hrun := by
    rcases runs_bind.1 hrun with ⟨a, d₁, hfirst, hrest⟩
    rcases h.runs hfirst with ⟨hnone, hpost⟩
    rcases (hnext a d₁ hfirst hpost).runs hrest with ⟨hnone', hpost'⟩
    rw [firstFault_append, hnone, hnone']
    exact ⟨rfl, hpost'⟩
  fails hfail := by
    rw [firstFault_append]
    rcases fails_bind.1 hfail with hfirst | ⟨a, d₁, hfirst, hrest⟩
    · rw [h.fails hfirst, Option.some_or]
    · rcases h.runs hfirst with ⟨hnone, hpost⟩
      rw [hnone, (hnext a d₁ hfirst hpost).fails hrest, Option.none_or]

/-- Giving a result heeds nothing. -/
theorem of_pure {a : α} (h : post a d) : Heeds (pure a : Build s α) d [] post where
  runs hrun := by
    rcases runs_pure.1 hrun with ⟨rfl, rfl⟩
    exact ⟨rfl, h⟩
  fails hfail := absurd hfail fails_pure

/-- Changing the draft heeds nothing. -/
theorem of_modify {f : Draft s → Draft s} {post : PUnit → Draft s → Prop} (h : post ⟨⟩ (f d)) :
    Heeds (modify f : Build s PUnit) d [] post where
  runs hrun := by
    rw [← runs_modify.1 hrun]
    exact ⟨rfl, h⟩
  fails hfail := absurd hfail fails_modify

/-- Taking something from the draft heeds nothing. -/
theorem of_modifyGet {f : Draft s → α × Draft s} (h : post (f d).1 (f d).2) :
    Heeds (modifyGet f : Build s α) d [] post where
  runs hrun := by
    rcases runs_modifyGet.1 hrun with ⟨rfl, rfl⟩
    exact ⟨rfl, h⟩
  fails hfail := absurd hfail fails_modifyGet

/-- Nothing that follows can be at fault. -/
theorem andThen (h : Heeds step d steps post)
    (hnext : ∀ a e, step.Runs d a e → post a e → Heeds (next a) e [] post') :
    Heeds (step >>= next) d steps post' :=
  (h.bind hnext).congr (List.append_nil _)

/-- Nothing that comes before can be at fault. -/
theorem quietly (h : Heeds step d [] post)
    (hnext : ∀ a e, step.Runs d a e → post a e → Heeds (next a) e steps post') :
    Heeds (step >>= next) d steps post' :=
  (h.bind hnext).congr (List.nil_append _)

/-- The draft is changed before anything can be at fault. -/
theorem modifyThen {f : Draft s → Draft s} {next : PUnit → Build s β}
    (h : Heeds (next ⟨⟩) (f d) steps post') : Heeds (modify f >>= next) d steps post' := by
  have hstep : Heeds (modify f : Build s PUnit) d [] fun _ e => e = f d := .of_modify rfl
  refine hstep.quietly fun _ e _ he => ?_
  subst he
  exact h

end Heeds

end Build

namespace Draft

variable {d e : Draft s} {table parent : TablePath} {m n : Model s} {path walked : List String}
  {p : Progress}

/-! ## Drafts to build in -/

/-- Conditions on the model can be built at the table, where the build has come as far as `p`. -/
structure Poised (d : Draft s) (table : TablePath) (m : Model s) (p : Progress) : Prop where
  ready : d.Ready table m
  progress : d.At p
  passed : d.Passed

/-- What is built at another table leaves the draft poised at this one. -/
theorem Poised.grow {τ : Type} {inner : TablePath} {subqueries : List (Relation s × List (Condition s))}
    {entered : List String} {advance : Progress → Progress} {result : Naming → Progress → τ} {t : τ}
    (h : d.Poised table m p) (hbuilds : Builds inner subqueries entered advance result d t e) :
    e.Poised table m (advance p) :=
  ⟨h.ready.grow hbuilds.grows, hbuilds.progress p h.progress,
    hbuilds.grows.passed h.ready.tidy h.passed⟩

/-- Joining keeps a draft poised. -/
theorem Poised.joins (h : d.Poised table m p) (hjoins : Joins d e) : e.Poised table m p :=
  ⟨h.ready.grow hjoins.grows, hjoins.at h.progress, hjoins.grows.passed h.ready.tidy h.passed⟩

/-- A sub-query is built in a draft of its own. -/
theorem Poised.nested (h : d.Poised table m p) (place : TablePath) (model : Model s) :
    (d.nestedDraft place model).Poised (.root model.table) model p.nested where
  ready := ready_withBase model _ _ _ _
  progress := by
    rw [Progress.nested, ← h.progress.lastParam]
    exact at_nestedDraft d place model
  passed := passed_withBase model _ _ _ _

/-! ## Relations -/

/-- A relation that has been joined is not at fault. -/
theorem Passed.fault?_eq_none (h : d.Passed) {r : Relation s} (hr : r.Resolved)
    (hmem : parent.child (.relation r.name) ∈ d.joined) (howner : d.modelAt? parent = some r.owner) :
    r.fault? = none :=
  h parent r.name r.owner r hmem howner hr.found

/-- A relation that has been joined is not at fault, looked at or not. -/
theorem Passed.fault?_of_joins (h : d.Passed) (hd : d.Tidy) {r : Relation s} (hr : r.Resolved)
    (hparent : parent ∈ d.joined) (howner : d.modelAt? parent = some r.owner)
    (hjoins : JoinsRelation r parent d e) : r.fault? = none :=
  (hjoins.joins.grows.passed hd h).fault?_eq_none hr hjoins.mem
    ((hjoins.joins.modelAt?_eq hparent).trans howner)

/-- Joining a relation fails with its fault. -/
theorem Passed.fault?_of_fails_join (h : d.Passed) (hd : d.Tidy) {r : Relation s} (hr : r.Resolved)
    (hparent : parent ∈ d.joined) (howner : d.modelAt? parent = some r.owner) {error : Error}
    (hfail : (join r (parent.child (.relation r.name))).Fails d error) : r.fault? = some error := by
  induction hr generalizing d parent with
  | direct found =>
    rcases hd.unknown_of_fails_join hparent hfail with ⟨kind, rfl, rfl⟩
    rfl
  | through found first_owner second_owner first_resolved second_resolved ihFirst ihSecond =>
    have hfirstOwner := howner.trans (congrArg some first_owner.symm)
    rcases hd.fails_join_through hparent first_resolved hfirstOwner second_owner hfail with
      hfirst | ⟨d₁, hjoins, htyped, hsecond⟩
    · rw [Relation.fault?, ihFirst h hd hparent hfirstOwner hfirst, Option.some_or]
    · -- the first hop has been joined, so only the second is at fault
      rw [Relation.fault?, h.fault?_of_joins hd first_resolved hparent hfirstOwner hjoins,
        Option.none_or]
      exact ihSecond (hjoins.joins.grows.passed hd h) (hjoins.joins.tidy hd) hjoins.mem htyped hsecond

/-- Joining a relation heeds the relation. -/
theorem heeds_join (h : d.Passed) (hd : d.Tidy) {r : Relation s} (hr : r.Resolved)
    (hparent : parent ∈ d.joined) (howner : d.modelAt? parent = some r.owner) :
    Heeds (join r (parent.child (.relation r.name))) d [.follow r]
      fun _ e => JoinsRelation r parent d e where
  runs hrun := by
    have hjoins := hd.runs_join hr hparent howner hrun
    rw [firstFault_cons, BuildStep.fault?, h.fault?_of_joins hd hr hparent howner hjoins]
    exact ⟨rfl, hjoins⟩
  fails hfail := by
    rw [firstFault_cons, BuildStep.fault?, h.fault?_of_fails_join hd hr hparent howner hfail]
    rfl

/-- The relations of an open path are joined one below the other. -/
theorem heeds_joinHops (h : d.Passed) (hd : d.Tidy) (hopen : OpenPath m path n)
    (hmem : table.join walked ∈ d.joined) (htyped : d.modelAt? (table.join walked) = some m) :
    Heeds (joinHops table (Column.hopsFrom m walked path).1) d (followAll m path)
      fun _ _ => True := by
  induction hopen generalizing d walked with
  | here m => exact .of_pure trivial
  | @step m n name path r shown found rest ih =>
    rcases Model.relation?_resolved found with ⟨hresolved, howner, rfl⟩
    have hpath : table.join (walked ++ [r.name]) = (table.join walked).child (.relation r.name) := by
      rw [TablePath.join_append, TablePath.join_singleton]
    have hfollows : followAll m (r.name :: path) = [.follow r] ++ followAll r.target path := by
      simp only [followAll, Model.follows, found, List.map_cons, List.singleton_append]
    simp only [Column.hopsFrom, found, joinHops, hpath]
    rw [hfollows]
    refine (heeds_join h hd hresolved hmem (howner ▸ htyped)).bind fun _ e _ hjoins => ?_
    exact ih (hjoins.joins.grows.passed hd h) (hjoins.joins.tidy hd) (hpath ▸ hjoins.mem)
      (hpath ▸ hjoins.typed)

/-- Joining a column heeds the relations on its path. -/
theorem Poised.heeds_joinColumn (h : d.Poised table m p) {c : Column s} (hmodel : c.model = m)
    (hopen : OpenPath m c.path n) :
    Heeds (joinColumn table c) d (followAll c.model c.path)
      fun reached e => reached = table.join c.path ∧ JoinsPath m n table c.path d e := by
  subst hmodel
  have hself : table.join [] = table := TablePath.join_nil table
  have hmem : table.join [] ∈ d.joined := hself.symm ▸ h.ready.mem
  have htyped : d.modelAt? (table.join []) = some c.model := hself.symm ▸ h.ready.typed
  have hhops := heeds_joinHops h.passed h.ready.tidy hopen hmem htyped
  have hnone := Column.hopsFrom_of_openPath hopen []
  have hcolumn : Heeds (joinColumn table c) d (followAll c.model c.path) fun _ _ => True := by
    unfold joinColumn Column.hops
    generalize Column.hopsFrom c.model [] c.path = hops at hnone hhops
    rcases hops with ⟨hops, error⟩
    cases hnone
    exact hhops.andThen fun _ _ _ _ => .of_pure trivial
  exact hcolumn.mono fun reached e hrun _ =>
    h.ready.tidy.runs_joinColumn rfl hopen h.ready.mem h.ready.typed hrun

end Draft

end DocQuery
