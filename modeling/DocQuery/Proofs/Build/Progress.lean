import DocQuery.Proofs.Build.Growth

namespace DocQuery

/-! # What a build comes to

`Builds` says what a run did at a table: how the draft has grown, which relations came in right
below the table, how far the build has come and which tree it gave. Runs one after the other are put
together by `Builds.bind`.

* `Builds.bind`: what two runs one after the other come to.
* `builds_joinColumns`: what joining the columns of a condition comes to.
-/

open Build

variable {s : Schema}

namespace Draft

variable {d e : Draft s} {table : TablePath} {m : Model s}

/-- Conditions on the model can be built at the table. -/
structure Ready (d : Draft s) (table : TablePath) (m : Model s) : Prop where
  tidy : d.Tidy
  mem : table ∈ d.joined
  typed : d.modelAt? table = some m

/-- A draft that has grown is still ready at the table. -/
theorem Ready.grow {subqueries : List (Relation s × List (Condition s))} (h : d.Ready table m)
    (hgrows : Grows subqueries d e) : e.Ready table m := by
  rcases hgrows.tidy_steady h.tidy with ⟨htidy, hsteady⟩
  exact ⟨htidy, hsteady.joined table h.mem, (hsteady.models table h.mem).trans h.typed⟩

/-- The table of an embedded sub-query is ready for the conditions on its row. -/
theorem Ready.embed (h : d.Ready table m) (name : String) (target : Model s) (done : Draft s) :
    (d.embed (derivedPath d table name) target done).Ready (derivedPath d table name) target := by
  have hplace := place_derivedPath h.mem name
  have henters := h.tidy.enters_embed hplace target done
  refine ⟨h.tidy.embed hplace done, henters.mem_joined.2 (.inl rfl), ?_⟩
  rw [henters.modelAt?, if_pos rfl]

/-- A fresh draft is ready at its base. -/
theorem ready_withBase (model : Model s) (config : Config) (baseAlias : String)
    (usedAliases : List String) (lastParam : Nat) :
    (withBase model config baseAlias usedAliases lastParam).Ready (.root model.table) model where
  tidy := tidy_withBase model config baseAlias usedAliases lastParam
  mem := List.mem_singleton_self _
  typed := by simp [modelAt?, withBase]

/-- The draft with another WHERE clause. -/
def withPredicate (d : Draft s) (tree : Predicate Test) : Draft s := { d with predicate := tree }

/-- The WHERE clause has no part in the order of the tables. -/
theorem Tidy.withPredicate (h : d.Tidy) (tree : Predicate Test) : (d.withPredicate tree).Tidy :=
  ⟨h.rooted, h.base_joined, h.hops, h.named, h.typed, h.reached, h.accounted, h.linked⟩

/-- A naming of the later draft names what was there before. -/
theorem Names.of_grows {subqueries : List (Relation s × List (Condition s))} {v : Naming}
    (h : e.Names v) (hd : d.Tidy) (hgrows : Grows subqueries d e) : d.Names v := by
  rcases hgrows.tidy_steady hd with ⟨_, hsteady⟩
  refine ⟨fun path a ha => h.tables path a (hsteady.aliases path a ha), fun n => ?_⟩
  rw [← hsteady.config]
  exact h.params n

/-- The build has come as far as `p`. -/
structure At (d : Draft s) (p : Progress) : Prop where
  lastParam : d.lastParam = p.lastParam
  derived : ∀ (table : TablePath) (name : String),
    table.child (.derived name) ∈ d.joined ↔ table.child (.derived name) ∈ p.derived

/-- Joining binds nothing and opens no sub-query. -/
theorem Joins.at {p : Progress} (h : Joins d e) (hp : d.At p) : e.At p where
  lastParam := by
    rw [h.eq_with]
    exact hp.lastParam
  derived := by
    intro table name
    rw [h.derived_mem_iff, hp.derived]

/-- Where the tables stay and nothing is bound, a build is as far as before. -/
theorem SameTables.at {p : Progress} (h : SameTables d e) (hparam : e.lastParam = d.lastParam)
    (hp : d.At p) : e.At p where
  lastParam := hparam.trans hp.lastParam
  derived := by
    have hjoined : e.joined = d.joined := by rw [h]
    rw [hjoined]
    exact hp.derived

/-- The next derived table of a relation stands where the progress says. -/
theorem At.derivedPath_eq {p : Progress} (h : d.At p) (table : TablePath) (relation : String) :
    derivedPath d table relation = freePath p.derived table relation := by
  rw [derivedPath_eq_freePath]
  exact freePath_congr (h.derived table)

/-- A sub-query goes on with the parameters of its parent. -/
theorem at_nestedDraft (d : Draft s) (place : TablePath) (model : Model s) :
    (d.nestedDraft place model).At ⟨d.lastParam, []⟩ where
  lastParam := rfl
  derived := by
    intro table name
    have hroot : table.child (.derived name) ≠ .root model.table := by
      intro heq
      have hlast := (TablePath.child_inj.1 (show table.child (.derived name) =
        TablePath.child ⟨[]⟩ (.base model.table) from heq)).2
      cases hlast
    simpa [nestedDraft, withBase] using hroot

end Draft

open Draft

/-- What a run at a table comes to. -/
structure Builds {τ : Type} (table : TablePath) (subqueries : List (Relation s × List (Condition s)))
    (entered : List String) (advance : Progress → Progress) (result : Naming → Progress → τ)
    (d : Draft s) (t : τ) (e : Draft s) : Prop where
  grows : Grows subqueries d e
  spreads : Spreads table entered d e
  progress : ∀ p, d.At p → e.At (advance p)
  result_eq : ∀ v p, d.At p → e.Names v → t = result v p

namespace Builds

variable {τ τ' τ'' : Type} {table inner : TablePath}
  {subqueries subqueries' : List (Relation s × List (Condition s))} {entered entered' : List String}
  {advance advance' : Progress → Progress} {result : Naming → Progress → τ}
  {result' : Naming → Progress → τ'} {d e f : Draft s} {t : τ} {t' : τ'}

/-- Doing nothing comes to nothing. -/
theorem refl (table : TablePath) (d : Draft s) (t : τ) :
    Builds table [] [] id (fun _ _ => t) d t d :=
  ⟨.refl d, .refl table d, fun _ hp => hp, fun _ _ _ _ => rfl⟩

/-- A tidy draft is tidy after any run. -/
theorem tidy (h : Builds table subqueries entered advance result d t e) (hd : d.Tidy) : e.Tidy :=
  (h.grows.tidy_steady hd).1

/-- Runs one after the other. -/
theorem bind (combine : τ → τ' → τ'') (hd : d.Tidy)
    (h : Builds table subqueries entered advance result d t e)
    (h' : Builds table subqueries' entered' advance' result' e t' f) :
    Builds table (subqueries ++ subqueries') (entered ++ entered') (fun p => advance' (advance p))
      (fun v p => combine (result v p) (result' v (advance p))) d (combine t t') f where
  grows := h.grows.trans h'.grows
  spreads := h.spreads.trans h'.spreads
  progress := fun p hp => h'.progress _ (h.progress p hp)
  result_eq := by
    intro v p hp hv
    have htidy := (h.grows.tidy_steady hd).1
    rw [h.result_eq v p hp (hv.of_grows htidy h'.grows), h'.result_eq v _ (h.progress p hp) hv]

/-- What is made of the result does not matter to the draft. -/
theorem map (g : τ → τ') (h : Builds table subqueries entered advance result d t e) :
    Builds table subqueries entered advance (fun v p => g (result v p)) d (g t) e :=
  ⟨h.grows, h.spreads, h.progress, fun v p hp hv => by rw [h.result_eq v p hp hv]⟩

/-- What a run comes to can be told in other words, if they agree at every progress. -/
theorem congr {result' : Naming → Progress → τ} (hentered : entered = entered')
    (hadvance : ∀ p, d.At p → advance p = advance' p)
    (hresult : ∀ v p, d.At p → result v p = result' v p)
    (h : Builds table subqueries entered advance result d t e) :
    Builds table subqueries entered' advance' result' d t e where
  grows := h.grows
  spreads := hentered ▸ h.spreads
  progress := fun p hp => hadvance p hp ▸ h.progress p hp
  result_eq := fun v p hp hv => (h.result_eq v p hp hv).trans (hresult v p hp)

/-- A run at a lower table brings in nothing right below this one. -/
theorem of_inner (h : Builds inner subqueries entered advance result d t e)
    (hinner : inner.IsBelow table) : Builds table subqueries [] advance result d t e :=
  ⟨h.grows, h.spreads.of_inner hinner, h.progress, h.result_eq⟩

/-- A run that joins relations and gives what is known already. -/
theorem of_joins (h : Joins d e) (hspreads : Spreads table entered d e) (t : τ) :
    Builds table [] entered id (fun _ _ => t) d t e :=
  ⟨h.grows, hspreads, fun _ hp => h.at hp, fun _ _ _ _ => rfl⟩

/-- A run that leaves the tables alone and binds nothing. -/
theorem of_sameTables (h : Grows [] d e) (hsame : SameTables d e)
    (hparam : e.lastParam = d.lastParam) (t : τ) :
    Builds table [] [] id (fun _ _ => t) d t e where
  grows := h
  spreads := .of_joined_eq table (by rw [hsame])
  progress := fun _ hp => hsame.at hparam hp
  result_eq := fun _ _ _ _ => rfl

end Builds

/-! ## Columns and parameters -/

namespace Condition

variable {d e : Draft s} {table : TablePath} {m : Model s}

/-- Joining columns enters their paths and names their tables. -/
theorem builds_joinColumns (h : d.Ready table m) {columns : List (Column s)}
    (hreached : ∀ c ∈ columns, c.LeadsToColumn m) {qualified : List QualifiedColumn}
    (hrun : (joinColumns table columns).Runs d qualified e) :
    Builds table [] (columns.flatMap fun c => c.model.entered c.path) id
      (fun v _ => v.qualify table columns) d qualified e := by
  have hcolumns := runs_joinColumns h.tidy hreached h.mem h.typed hrun
  exact ⟨hcolumns.joins.grows, hcolumns.spreads, fun _ hp => hcolumns.joins.at hp,
    fun v _ _ hv => hcolumns.qualified_eq v.tables hv.tables⟩

end Condition

/-- The next parameters are the first of them and those behind it. -/
theorem Naming.nextParams_succ (v : Naming) (p : Progress) (n : Nat) :
    v.nextParams p (n + 1) = v.params (p.lastParam + 1) :: v.nextParams (p.bind 1) n := by
  simp [nextParams, List.range'_succ, Progress.bind]

namespace Draft

variable {d : Draft s} {table : TablePath}

/-- Binding a value takes the next parameter. -/
theorem builds_bind (table : TablePath) (d : Draft s) (value : Operand) :
    Builds table [] [] (·.bind 1) (fun v p => v.params (p.lastParam + 1)) d (d.bind value).1
      (d.bind value).2 where
  grows := .clause (.bind value)
  spreads := .of_joined_eq table rfl
  progress := fun p hp => ⟨congrArg (· + 1) hp.lastParam, hp.derived⟩
  result_eq := by
    intro v p hp hv
    rw [hv.params, ← hp.lastParam]
    rfl

/-- Binding values takes the next parameters, in order. -/
theorem builds_bindAll (table : TablePath) (hd : d.Tidy) (values : List Operand) :
    Builds table [] [] (·.bind values.length) (fun v p => v.nextParams p values.length) d
      (d.bindAll values).1 (d.bindAll values).2 := by
  induction values generalizing d with
  | nil => exact .refl table d []
  | cons value values ih =>
    have hfirst := builds_bind table d value
    have hrest := ih (hfirst.grows.tidy_steady hd).1
    refine (hfirst.bind List.cons hd hrest).congr rfl (fun p _ => ?_) (fun v p _ => ?_)
    · simp only [Progress.bind, List.length_cons]
      congr 1
      omega
    · exact (v.nextParams_succ p values.length).symm

end Draft

end DocQuery
