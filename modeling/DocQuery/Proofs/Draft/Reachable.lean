import DocQuery.Proofs.Build.Run
import DocQuery.Proofs.Document.Access
import DocQuery.Proofs.Draft.Bounded
import DocQuery.Proofs.Draft.Joins

namespace DocQuery

/-! # The alias table under any use

What holds of the aliases of a draft that is asked for aliases, joined and embedded in any order, at
any paths, and whether or not a join fails half-way. Only three things ever happen to the table: a
path is given a fresh alias, the path of a through relation takes over the alias of another, or the
table stays while other aliases come into use. The invariants are shown for these three.

* `Develops.distinguishes`: what happens to the table of aliases keeps the paths told apart.
* `develops_join`: joining a relation does no more than that, also where it fails half-way.
* `aliases_told_apart`: two paths share an alias only if both trace back to one path.
-/

open Build

variable {s : Schema}

/-- Which paths have taken over the alias of which other path, the latest first. -/
abbrev Takeovers := List (TablePath × TablePath)

/-- From the path over the takeovers one comes to the origin. -/
abbrev Takeovers.TracesBack (log : Takeovers) : TablePath → TablePath → Prop :=
  Relation.ReflTransGen fun path source => (path, source) ∈ log

/-- A longer log traces back at least as much. -/
theorem Takeovers.TracesBack.mono {log log' : Takeovers} (hsub : log ⊆ log') {path origin : TablePath}
    (h : log.TracesBack path origin) : log'.TracesBack path origin :=
  Relation.ReflTransGen.mono (fun _ _ hmem => hsub hmem) _ _ h

namespace Build

variable {α β : Type} {step : Build s α} {next : α → Build s β} {d e : Draft s}

/-- The draft that a step leaves, whether or not it fails. -/
def after (step : Build s α) (d : Draft s) : Draft s := (step.runOn d).2

/-- A compound step leaves what its second part leaves, if the first succeeds. -/
theorem after_bind_of_runs {a : α} (h : step.Runs d a e) :
    (step >>= next).after d = (next a).after e := by
  rw [after, runOn_bind, h]
  rfl

/-- What follows a step that fails is not run. -/
theorem after_bind_of_error {error : Error} (h : step.runOn d = (.error error, e)) :
    (step >>= next).after d = e := by
  rw [after, runOn_bind, h]

end Build

namespace Draft

/-- A path has the alias that it was given when it was asked for. -/
theorem aliasAt?_aliasOf (d : Draft s) (path : TablePath) :
    (d.aliasOf path).2.aliasAt? path = some (d.aliasOf path).1 := by
  cases hpath : d.aliasAt? path with
  | none => rw [aliasOf_of_none hpath, aliasAt?_giveAlias, if_pos rfl]
  | some a =>
    rw [aliasOf_of_some hpath]
    exact hpath

/-! ## What happens to the table -/

/-- The alias table of one draft develops into that of the other with these takeovers. -/
inductive Develops : Draft s → Takeovers → Draft s → Prop where
  /-- The table stays, and no alias in use is forgotten. -/
  | keep {d e : Draft s} (aliases : e.aliases = d.aliases) (used : d.usedAliases ⊆ e.usedAliases)
      (config : e.config = d.config) (baseAlias : e.baseAlias = d.baseAlias) : Develops d [] e
  /-- A path without an alias is given a fresh one. -/
  | give {d : Draft s} {path : TablePath} (unnamed : d.aliasAt? path = none) :
      Develops d [] (d.giveAlias path)
  /-- A path takes over the alias of another. -/
  | take {d : Draft s} {path source : TablePath} {a : String} (named : d.aliasAt? source = some a) :
      Develops d [(path, source)] (d.setAlias path a)
  | trans {d e f : Draft s} {log more : Takeovers} (front : Develops d log e)
      (back : Develops e more f) : Develops d (more ++ log) f

namespace Develops

variable {d e : Draft s} {log : Takeovers} {path : TablePath} {a : String}

/-- Asking for an alias gives a fresh one or none. -/
theorem aliasOf (d : Draft s) (path : TablePath) : Develops d [] (d.aliasOf path).2 := by
  cases hpath : d.aliasAt? path with
  | none =>
    rw [aliasOf_of_none hpath]
    exact .give hpath
  | some a =>
    rw [aliasOf_of_some hpath]
    exact .keep rfl (List.Subset.refl _) rfl rfl

/-- A join leaves the table of aliases alone. -/
theorem addJoin (d : Draft s) (join : Join Statement) : Develops d [] (d.addJoin join) :=
  .keep rfl (List.Subset.refl _) rfl rfl

/-- So does marking a path. -/
theorem markJoined (d : Draft s) (path : TablePath) (model : Model s) :
    Develops d [] (d.markJoined path model) :=
  .keep rfl (List.Subset.refl _) rfl rfl

/-- Nothing is taken over in front. -/
theorem after_quiet {f : Draft s} (hfront : Develops d [] e) (hback : Develops e log f) :
    Develops d log f := by
  have h := hfront.trans hback
  rwa [List.append_nil] at h

/-- The settings and the alias of the base stay. -/
theorem base_eq (h : Develops d log e) : e.config = d.config ∧ e.baseAlias = d.baseAlias := by
  induction h with
  | keep _ _ config baseAlias => exact ⟨config, baseAlias⟩
  | give | take => exact ⟨rfl, rfl⟩
  | trans _ _ ihFront ihBack => exact ⟨ihBack.1.trans ihFront.1, ihBack.2.trans ihFront.2⟩

/-- A path keeps its alias unless it takes over another. -/
theorem aliasAt?_eq (h : Develops d log e) (hkept : ∀ source, (path, source) ∉ log)
    (ha : d.aliasAt? path = some a) : e.aliasAt? path = some a := by
  -- By induction on the development: of the three steps only a takeover could change an alias, and
  -- that of `path` is not among those in the log.
  induction h with
  | keep aliases =>
    unfold aliasAt? at ha ⊢
    rw [aliases, ha]
  | give unnamed =>
    rw [aliasAt?_giveAlias, if_neg (ne_of_unnamed ha unnamed)]
    exact ha
  | @take d taker source b named =>
    have hne : path ≠ taker := by
      rintro rfl
      exact hkept source List.mem_cons_self
    rw [aliasAt?_setAlias, if_neg hne]
    exact ha
  | trans _ _ ihFront ihBack =>
    have hfront := ihFront (fun source hmem => hkept source (List.mem_append_right _ hmem)) ha
    exact ihBack (fun source hmem => hkept source (List.mem_append_left _ hmem)) hfront

end Develops

/-! ## What holds of the table -/

/-- The aliases of a draft whose table came about by these takeovers. -/
structure Distinguishes (d : Draft s) (log : Takeovers) : Prop where
  roomy : 9 ≤ d.config.maxIdentifierLength
  used : ∀ path a, d.aliasAt? path = some a → a ∈ d.usedAliases
  shared : ∀ p q a, d.aliasAt? p = some a → d.aliasAt? q = some a →
    ∃ origin, log.TracesBack p origin ∧ log.TracesBack q origin
  short : d.usedAliases.toFinset.card < 10 ^ 7 → ∀ path a, d.aliasAt? path = some a →
    a ≠ d.baseAlias → a.utf8ByteSize ≤ d.config.maxIdentifierLength

/-- More aliases are not fewer. -/
theorem card_le_of_subset {used used' : List String} (h : used ⊆ used') :
    used.toFinset.card ≤ used'.toFinset.card :=
  Finset.card_le_card fun _ ha => List.mem_toFinset.2 (h (List.mem_toFinset.1 ha))

/-- A base table on its own. -/
theorem distinguishes_withBase (model : Model s) {config : Config}
    (hroom : 9 ≤ config.maxIdentifierLength) (baseAlias : String) (usedAliases : List String)
    (lastParam : Nat) : (withBase model config baseAlias usedAliases lastParam).Distinguishes [] := by
  have hnamed : ∀ path a,
      (withBase model config baseAlias usedAliases lastParam).aliasAt? path = some a →
        path = .root model.table ∧ a = baseAlias := by
    intro path a ha
    rw [aliasAt?, withBase, lookup_cons_eq] at ha
    split at ha
    · rename_i hpath
      exact ⟨hpath, (Option.some.inj ha).symm⟩
    · cases ha
  -- there is one path and one alias to look at
  refine ⟨hroom, ?_, ?_, ?_⟩
  · intro path a ha
    rw [(hnamed path a ha).2]
    exact List.mem_cons_self
  · intro p q a hp hq
    rw [(hnamed p a hp).1, (hnamed q a hq).1]
    exact ⟨_, .refl, .refl⟩
  · intro _ path a ha hne
    exact absurd (hnamed path a ha).2 hne

/-- A fresh alias is new, so it is shared with no path. -/
theorem Distinguishes.giveAlias {d : Draft s} {log : Takeovers} (h : d.Distinguishes log)
    {path : TablePath} (unnamed : d.aliasAt? path = none) :
    (d.giveAlias path).Distinguishes log := by
  -- an alias in the new table is the fresh one of the path, or stood there before and is in use
  have hnew : ∀ q a, (d.giveAlias path).aliasAt? q = some a →
      (q = path ∧ a = d.newAlias path) ∨ (d.aliasAt? q = some a ∧ a ≠ d.newAlias path) := by
    intro q a ha
    rw [aliasAt?_giveAlias] at ha
    split at ha
    · rename_i hq
      exact .inl ⟨hq, (Option.some.inj ha).symm⟩
    · refine .inr ⟨ha, ?_⟩
      rintro rfl
      exact d.newAlias_notMem path (h.used q _ ha)
  refine ⟨h.roomy, ?_, ?_, ?_⟩
  · intro q a ha
    rcases hnew q a ha with ⟨_, rfl⟩ | ⟨hold, _⟩
    · exact List.mem_cons_self
    · exact List.mem_cons_of_mem _ (h.used q a hold)
  · intro p q a hp hq
    rcases hnew p a hp with ⟨rfl, rfl⟩ | ⟨hp, hpne⟩
    · rcases hnew q _ hq with ⟨rfl, _⟩ | ⟨_, hqne⟩
      · exact ⟨_, .refl, .refl⟩
      · exact absurd rfl hqne
    · rcases hnew q a hq with ⟨_, rfl⟩ | ⟨hq, _⟩
      · exact absurd rfl hpne
      · exact h.shared p q a hp hq
  · intro hcard q a ha hne
    have hold : d.usedAliases.toFinset.card < 10 ^ 7 :=
      (card_le_of_subset (List.subset_cons_self _ _)).trans_lt hcard
    rcases hnew q a ha with ⟨_, rfl⟩ | ⟨ha, _⟩
    · exact utf8ByteSize_freshAlias_le h.roomy hold _
    · exact h.short hold q a ha hne

/-- A path that takes over an alias shares it with those that trace back to the same path. -/
theorem Distinguishes.setAlias {d : Draft s} {log : Takeovers} (h : d.Distinguishes log)
    {path source : TablePath} {b : String} (named : d.aliasAt? source = some b) :
    (d.setAlias path b).Distinguishes ((path, source) :: log) := by
  have hnew : ∀ q a, (d.setAlias path b).aliasAt? q = some a →
      (q = path ∧ a = b) ∨ d.aliasAt? q = some a := by
    intro q a ha
    rw [aliasAt?_setAlias] at ha
    split at ha
    · rename_i hq
      exact .inl ⟨hq, (Option.some.inj ha).symm⟩
    · exact .inr ha
  have hmono : ∀ {p origin : TablePath}, log.TracesBack p origin →
      Takeovers.TracesBack ((path, source) :: log) p origin :=
    fun hp => hp.mono (List.subset_cons_self _ _)
  -- the path now traces back to wherever its source does
  have hsource : ∀ {origin : TablePath}, log.TracesBack source origin →
      Takeovers.TracesBack ((path, source) :: log) path origin :=
    fun hp => .head List.mem_cons_self (hmono hp)
  refine ⟨h.roomy, ?_, ?_, ?_⟩
  · intro q a ha
    rcases hnew q a ha with ⟨_, rfl⟩ | ha
    · exact h.used source _ named
    · exact h.used q a ha
  · intro p q a hp hq
    rcases hnew p a hp with ⟨rfl, rfl⟩ | hpOld
    · rcases hnew q _ hq with ⟨rfl, _⟩ | hqOld
      · exact ⟨_, .refl, .refl⟩
      · rcases h.shared source q _ named hqOld with ⟨origin, hs, hback⟩
        exact ⟨origin, hsource hs, hmono hback⟩
    · rcases hnew q a hq with ⟨rfl, rfl⟩ | hqOld
      · rcases h.shared p source _ hpOld named with ⟨origin, hback, hs⟩
        exact ⟨origin, hmono hback, hsource hs⟩
      · rcases h.shared p q a hpOld hqOld with ⟨origin, hpBack, hqBack⟩
        exact ⟨origin, hmono hpBack, hmono hqBack⟩
  · intro hcard q a ha hne
    rcases hnew q a ha with ⟨_, rfl⟩ | ha
    · exact h.short hcard source _ named hne
    · exact h.short hcard q a ha hne

/-- What holds of the aliases goes on to hold as the table develops. -/
theorem Develops.distinguishes {d e : Draft s} {log more : Takeovers} (h : Develops d more e)
    (hd : d.Distinguishes log) : e.Distinguishes (more ++ log) := by
  -- one case for each of the three things that happen to the table
  induction h generalizing log with
  | @keep d e aliases used config baseAlias =>
    have hsame : ∀ path, e.aliasAt? path = d.aliasAt? path := by
      intro path
      rw [aliasAt?, aliases, aliasAt?]
    refine ⟨config ▸ hd.roomy, ?_, ?_, ?_⟩
    · intro path a ha
      exact used (hd.used path a (hsame path ▸ ha))
    · intro p q a hp hq
      exact hd.shared p q a (hsame p ▸ hp) (hsame q ▸ hq)
    · intro hcard path a ha hne
      rw [config]
      exact hd.short ((card_le_of_subset used).trans_lt hcard) path a (hsame path ▸ ha) (baseAlias ▸ hne)
  | give unnamed => exact hd.giveAlias unnamed
  | take named => exact hd.setAlias named
  | trans _ _ ihFront ihBack =>
    rw [List.append_assoc]
    exact ihBack (ihFront hd)

/-! ## Joins -/

/-- The takeovers of joining a relation at a path: where both hops of a through relation are joined,
its path takes over the alias of the second one's. The steps are those of `join`, which may fail at
either hop. -/
def takeovers : Relation s → TablePath → Draft s → Takeovers
  | .direct .., _, _ => []
  | .through _ _ _ first second, path, d =>
    if d.isJoined path then []
    else
      match path.parent? with
      | none => []
      | some parent =>
        let throughPath := parent.child (.relation first.name)
        let sourcePath := throughPath.child (.relation second.name)
        let d := (d.aliasOf parent).2
        match (join first throughPath).runOn d with
        | (.error _, _) => takeovers first throughPath d
        | (.ok _, d₁) =>
          match (join second sourcePath).runOn d₁ with
          | (.error _, _) => takeovers second sourcePath d₁ ++ takeovers first throughPath d
          | (.ok _, _) =>
            (path, sourcePath) :: (takeovers second sourcePath d₁ ++ takeovers first throughPath d)

/-- Joining a link takes over nothing, wherever it stops. -/
theorem develops_joinLink (parent path : TablePath) (a name : String) (owner target : Model s)
    (link : Link) (d : Draft s) :
    Develops d [] ((joinLink parent path a name owner target link).after d) := by
  cases link with
  | hasMany foreignKey =>
    exact (Develops.aliasOf d path).trans (.addJoin _ _)
  | belongsTo foreignKey =>
    exact (Develops.aliasOf d path).trans (.addJoin _ _)
  | manyToMany joinTable foreignKey associationForeignKey =>
    have haliases := (Develops.aliasOf d (parent.child (.joinTable name))).trans (.aliasOf _ path)
    exact (haliases.trans (.addJoin _ _)).trans (.addJoin _ _)
  | unknown kind => exact .keep rfl (List.Subset.refl _) rfl rfl

/-- A step that is left out where the path is joined leaves the draft alone there. -/
theorem after_unless_joined (path : TablePath) (step : Build s Unit) (d : Draft s) :
    Build.after (do
      if (← get).isJoined path then return
      step) d = if d.isJoined path then d else step.after d := by
  have hget : Build.Runs (get : Build s (Draft s)) d d d := runs_get.2 ⟨rfl, rfl⟩
  rw [after_bind_of_runs hget]
  split
  · rfl
  · rfl

/-- What is taken from a draft is handed on. -/
theorem after_modifyGet_bind {α β : Type} (f : Draft s → α × Draft s) (next : α → Build s β)
    (d : Draft s) : ((modifyGet f : Build s α) >>= next).after d = (next (f d).1).after (f d).2 :=
  after_bind_of_runs (runs_modifyGet.2 ⟨rfl, rfl⟩)

/-- A path takes over the alias that its source has or is given. -/
theorem Develops.takeOver (d : Draft s) (path source : TablePath) :
    Develops d [(path, source)] ((d.aliasOf source).2.setAlias path (d.aliasOf source).1) := by
  exact (Develops.aliasOf d source).trans (.take (aliasAt?_aliasOf d source))

/-- Joining a relation, at whatever path and whether or not it fails, makes its takeovers and no
others. -/
theorem develops_join (r : Relation s) (path : TablePath) (d : Draft s) :
    Develops d (takeovers r path d) ((join r path).after d) := by
  have hstay : ∀ d : Draft s, Develops d [] d := fun d => .keep rfl (List.Subset.refl _) rfl rfl
  induction r generalizing path d with
  | direct name owner definition link target =>
    unfold join
    rw [takeovers, after_unless_joined]
    split
    · exact hstay d
    · cases path.parent? with
      | none => exact hstay d
      | some parent =>
        simp only [after_modifyGet_bind]
        have hlink := (Develops.aliasOf d parent).trans
          (develops_joinLink parent path (d.aliasOf parent).1 name owner target link _)
        cases hrun : (joinLink parent path (d.aliasOf parent).1 name owner target link).runOn
            (d.aliasOf parent).2 with
        | mk result e =>
          rw [after, hrun] at hlink
          cases result with
          | error raised =>
            -- what a link has allocated before it fails stays
            rw [after_bind_of_error hrun]
            exact hlink
          | ok u =>
            rw [after_bind_of_runs hrun]
            exact hlink.trans (.markJoined _ _ _)
  | through name owner definition first second ihFirst ihSecond =>
    unfold join
    rw [takeovers, after_unless_joined]
    split
    · exact hstay d
    · cases path.parent? with
      | none => exact hstay d
      | some parent =>
        simp only [after_modifyGet_bind]
        have hparent := Develops.aliasOf d parent
        generalize (d.aliasOf parent).2 = d₀ at hparent ⊢
        have hfirst := ihFirst (parent.child (.relation first.name)) d₀
        cases hrun₁ : (join first (parent.child (.relation first.name))).runOn d₀ with
        | mk result d₁ =>
          rw [after, hrun₁] at hfirst
          cases result with
          | error raised =>
            rw [after_bind_of_error hrun₁]
            exact hparent.after_quiet hfirst
          | ok u =>
            rw [after_bind_of_runs hrun₁]
            dsimp only
            have hsecond := ihSecond ((parent.child (.relation first.name)).child
              (.relation second.name)) d₁
            cases hrun₂ : (join second ((parent.child (.relation first.name)).child
                (.relation second.name))).runOn d₁ with
            | mk result d₂ =>
              rw [after, hrun₂] at hsecond
              have hhops := hparent.after_quiet (hfirst.trans hsecond)
              cases result with
              | error raised =>
                rw [after_bind_of_error hrun₂]
                exact hhops
              | ok u =>
                -- with both hops joined, the path takes over the alias of the second one
                rw [after_bind_of_runs hrun₂]
                exact (hhops.trans (.takeOver d₂ path _)).trans (.markJoined _ _ _)

/-! ## Any sequence of steps -/

/-- One use of a draft, with the takeovers that it makes. A relation may be joined at any path, and
a derived table too; which path is free for one does not change the draft. A sub-query may be opened
at any place, and any draft may be absorbed, at any later time. -/
inductive Step (d : Draft s) : Takeovers → Draft s → Prop where
  | askAlias (path : TablePath) : Step d [] (d.aliasOf path).2
  | askColumn (path : TablePath) (name : String) : Step d [] (d.columnAt path name).2
  | join (r : Relation s) (path : TablePath) :
      Step d (takeovers r path d) ((Draft.join r path).after d)
  | joinDerived (path : TablePath) (model : Model s) (derived : String → Join Statement) :
      Step d [] (d.joinDerived path model derived)
  | openNested (model : Model s) (place : TablePath) : Step d [] (d.openNested model place).2
  | absorb (sub : Draft s) : Step d [] (d.absorb sub)

/-- Any number of uses of a draft. -/
inductive Run (d : Draft s) : Takeovers → Draft s → Prop where
  | refl : Run d [] d
  | step {e f : Draft s} {log more : Takeovers} (run : Run d log e) (step : e.Step more f) :
      Run d (more ++ log) f

/-- The drafts that a query with a usable configuration can come to: that of the query itself and
those of sub-queries opened in one, after any number of uses. -/
inductive Reachable : Draft s → Takeovers → Prop where
  | new (model : Model s) {config : Config} (valid : config.validate = .ok ()) :
      Reachable (.new model config) []
  | nested {d : Draft s} {log : Takeovers} (outer : Reachable d log) (model : Model s)
      (place : TablePath) : Reachable (d.openNested model place).1 []
  | step {d e : Draft s} {log more : Takeovers} (reached : Reachable d log) (step : d.Step more e) :
      Reachable e (more ++ log)

/-- A step of any use develops the table. -/
theorem Step.develops {d e : Draft s} {log : Takeovers} (h : d.Step log e) : Develops d log e := by
  cases h with
  | askAlias path => exact .aliasOf d path
  | askColumn path name => exact .aliasOf d path
  | join r path => exact develops_join r path d
  | joinDerived path model derived =>
    unfold Draft.joinDerived
    split
    · exact .keep rfl (List.Subset.refl _) rfl rfl
    · exact ((Develops.aliasOf d path).trans (.addJoin _ _)).trans (.markJoined _ _ _)
  | openNested model place => exact .aliasOf d _
  | absorb sub => exact .keep rfl (List.subset_append_right _ _) rfl rfl

/-- So does any number of steps. -/
theorem Run.develops {d e : Draft s} {log : Takeovers} (h : d.Run log e) : Develops d log e := by
  induction h with
  | refl => exact .keep rfl (List.Subset.refl _) rfl rfl
  | step _ step ih => exact ih.trans step.develops

/-- Every draft that can be reached tells its aliases apart. -/
theorem Reachable.distinguishes {d : Draft s} {log : Takeovers} (h : d.Reachable log) :
    d.Distinguishes log := by
  induction h with
  | new model valid => exact distinguishes_withBase model (Config.room_of_validate valid) _ _ _
  | @nested d log outer model place ih =>
    have hroom : 9 ≤ (d.aliasOf (place.child (.base model.table))).2.config.maxIdentifierLength := by
      rw [(Develops.aliasOf d _).base_eq.1]
      exact ih.roomy
    exact distinguishes_withBase model hroom _ _ _
  | step _ step ih => exact step.develops.distinguishes ih

/-- In every draft that a query can come to, all aliases of the table are in use, two paths share
one only if both have it over takeovers from the same path, and none but that of the base table is
too long while fewer than ten million are in use. A path that has been asked for keeps its alias,
whatever is done with the draft, until it takes over another. -/
theorem aliases_told_apart {d : Draft s} {log : Takeovers} (h : d.Reachable log) :
    (∀ path a, d.aliasAt? path = some a → a ∈ d.usedAliases) ∧
      (∀ p q a, d.aliasAt? p = some a → d.aliasAt? q = some a →
        ∃ origin, log.TracesBack p origin ∧ log.TracesBack q origin) ∧
      (d.usedAliases.toFinset.card < 10 ^ 7 → ∀ path a, d.aliasAt? path = some a →
        a ≠ d.baseAlias → a.utf8ByteSize ≤ d.config.maxIdentifierLength) ∧
      ∀ path more e, (d.aliasOf path).2.Run more e → (∀ source, (path, source) ∉ more) →
        e.aliasOf path = ((d.aliasOf path).1, e) := by
  have hd := h.distinguishes
  refine ⟨hd.used, hd.shared, hd.short, ?_⟩
  intro path more e hrun hkept
  exact aliasOf_of_some (hrun.develops.aliasAt?_eq hkept (aliasAt?_aliasOf d path))

/-- The path of a through relation and that of its second hop share an alias. -/
theorem aliases_told_apart_readings :
    ∃ m r log, Schema.people.model? "Person" = some m ∧ m.relation? "readings" = some r ∧
      ((join r (.child (.root "people") (.relation "readings"))).after (.new m {})).Reachable log ∧
      ∃ origin, log.TracesBack (.child (.root "people") (.relation "readings")) origin ∧
        log.TracesBack (.join (.root "people") ["friends", "articles"]) origin := by
  -- the two paths and their common alias, as the model computes them
  have hcomputed : ((Schema.people.model? "Person").bind fun m => (m.relation? "readings").map fun r =>
      [TablePath.child (.root "people") (.relation "readings"),
        .join (.root "people") ["friends", "articles"]].map
        ((join r (.child (.root "people") (.relation "readings"))).after (.new m {})).aliasAt?) =
      some [some "smql_friends_articles", some "smql_friends_articles"] := by
    decide +kernel
  rcases Option.bind_eq_some_iff.1 hcomputed with ⟨m, hm, hcomputed⟩
  rcases Option.map_eq_some_iff.1 hcomputed with ⟨r, hr, haliases⟩
  simp only [List.map_cons, List.map_nil, List.cons.injEq, and_true] at haliases
  have hreached : ((join r (.child (.root "people") (.relation "readings"))).after
      (.new m {})).Reachable _ := .step (.new m rfl) (.join r _)
  rcases aliases_told_apart hreached with ⟨_, hshared, _, _⟩
  exact ⟨m, r, _, hm, hr, hreached, hshared _ _ _ haliases.1 haliases.2⟩

end Draft

end DocQuery
