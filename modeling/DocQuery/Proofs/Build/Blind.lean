import DocQuery.Proofs.Build.Carry
import DocQuery.Proofs.Build.Where

namespace DocQuery

/-! # Steps that are blind to the WHERE clause

A blind step runs in the same way whatever the WHERE clause of the draft is, and leaves the clause
alone. Building conditions is blind: only the trees that it gives go into the clause, later.

* `build_blind`: building a condition neither reads nor changes the WHERE clause.
* `buildWhere_runs_iff`: so the clause is the old one with the trees pushed on, in order.
* `Compiles.buildEach`: the clause of a compiled query is the conjunction of the trees of its
  conditions.
-/

open Draft

variable {s : Schema} {α β : Type}

namespace Build

/-- The step neither reads nor changes the WHERE clause. -/
def Blind (step : Build s α) : Prop :=
  ∀ p : Predicate Test, Simulates (fun d => d.withPredicate p) step step

/-- A blind step keeps the WHERE clause. -/
theorem Blind.predicate_eq {step : Build s α} (h : Blind step) {d e : Draft s} {a : α}
    (hrun : step.Runs d a e) : e.predicate = d.predicate := by
  have hsame := h d.predicate d a e hrun
  have hrun' : step.Runs (d.withPredicate d.predicate) a e := hrun
  have heq : e = e.withPredicate d.predicate := by
    unfold Runs at hsame hrun'
    rw [hrun'] at hsame
    exact (Prod.mk.inj hsame).2
  have hpredicate := congrArg (fun d : Draft s => d.predicate) heq
  exact hpredicate

theorem blind_pure (a : α) : Blind (pure a : Build s α) :=
  fun _ => simulates_pure a

theorem blind_throw (error : Error) : Blind (throw error : Build s α) :=
  fun _ => simulates_throw error _

/-- Blind steps are blind one after the other. -/
theorem Blind.bind {step : Build s α} {next : α → Build s β} (h : Blind step)
    (hnext : ∀ a, Blind (next a)) : Blind (step >>= next) :=
  fun p => (h p).bind fun a => hnext a p

/-- A step that changes the draft is blind if it changes all but the clause. -/
theorem blind_modify {f : Draft s → Draft s}
    (h : ∀ d p, f (d.withPredicate p) = (f d).withPredicate p) : Blind (modify f) :=
  fun p => simulates_modify fun d => h d p

theorem blind_modifyGet {f : Draft s → α × Draft s}
    (h : ∀ d p, f (d.withPredicate p) = ((f d).1, (f d).2.withPredicate p)) :
    Blind (modifyGet f) :=
  fun p => simulates_modifyGet fun d => h d p

/-- A step may read all of the draft but the clause. -/
theorem blind_get {next : Draft s → Build s β} (hsame : ∀ d p, next (d.withPredicate p) = next d)
    (h : ∀ d, Blind (next d)) : Blind (get >>= next) := by
  refine fun p => simulates_get fun d => ?_
  rw [hsame]
  exact h d p

theorem blind_ite {c : Prop} [Decidable c] {step other : Build s α} (h : Blind step)
    (hother : Blind other) : Blind (if c then step else other) :=
  fun p => simulates_ite (h p) (hother p)

end Build

open Build

namespace Draft

/-! ## Joins -/

/-- A join is added next to the clause. -/
theorem blind_addJoin (join : Join Statement) : Blind (s := s) (modify (·.addJoin join)) :=
  blind_modify fun _ _ => rfl

/-- Joins neither read nor write the WHERE clause. -/
theorem inert_withPredicate (p : Predicate Test) :
    Inert (fun d : Draft s => d.withPredicate p) (fun _ => True) where
  isJoined _ _ := rfl
  aliasOf d path := d.aliasOf_withPredicate path p
  setAlias _ _ _ := rfl
  addJoin _ _ _ _ _ := rfl
  markJoined _ _ _ := rfl
  addInclude d path := d.addInclude_withPredicate path p
  aliasOf_kept _ _ := trivial
  setAlias_kept _ _ _ := trivial
  addJoin_kept _ _ _ _ _ := trivial
  markJoined_kept _ _ _ := trivial
  addInclude_kept _ _ := trivial

theorem blind_aliasOf (path : TablePath) : Blind (s := s) (modifyGet (·.aliasOf path)) :=
  fun p => (inert_withPredicate p).simulates_aliasOf path

theorem blind_columnAt (path : TablePath) (name : String) :
    Blind (s := s) (modifyGet (·.columnAt path name)) :=
  fun p => (inert_withPredicate p).simulates_columnAt path name

theorem blind_joinColumn (table : TablePath) (column : Column s) :
    Blind (joinColumn table column) :=
  fun p => (inert_withPredicate p).simulates_joinColumn table column

/-! ## Parameters and clauses -/

/-- What is bound is kept apart from the clause. -/
theorem bindAll_withPredicate (d : Draft s) (values : List Operand) (p : Predicate Test) :
    (d.withPredicate p).bindAll values =
      ((d.bindAll values).1, (d.bindAll values).2.withPredicate p) := by
  induction values generalizing d with
  | nil => rfl
  | cons value values ih =>
    have hrest := ih (d.bind value).2
    have hbind : (d.withPredicate p).bind value =
        ((d.bind value).1, (d.bind value).2.withPredicate p) := rfl
    simp only [bindAll, hbind, hrest]

theorem blind_bindAll (values : List Operand) : Blind (s := s) (modifyGet (·.bindAll values)) :=
  blind_modifyGet fun d p => d.bindAll_withPredicate values p

end Draft

namespace Condition

/-! ## Conditions -/

theorem blind_joinColumns (table : TablePath) (columns : List (Column s)) :
    Blind (joinColumns table columns) :=
  fun p => (inert_withPredicate p).simulates_joinColumns table columns

theorem blind_joinRelation (table : TablePath) (column : Column s) :
    Blind (joinRelation table column) :=
  fun p => (inert_withPredicate p).simulates_joinRelation table column

theorem blind_includeRelation (table : TablePath) (column : Column s) :
    Blind (includeRelation table column) :=
  fun p => (inert_withPredicate p).simulates_includeRelation table column

/-- An order adds columns and entries of the ORDER BY clause. -/
theorem blind_orderBy (table : TablePath) (entries : List (Column s × Direction)) :
    Blind (orderBy table entries) := by
  induction entries with
  | nil => exact blind_pure _
  | cons entry entries ih =>
    rcases entry with ⟨column, direction⟩
    exact (blind_joinColumn table column).bind fun path =>
      (blind_modify fun d p => d.addOrder_withPredicate path _ direction p).bind fun _ => ih

/-- Where a function is allowed, it is as blind as what it does. -/
theorem blind_atRoot (function : FunctionName) (table : TablePath) {step : Build s Unit}
    (h : Blind step) : Blind (atRoot function table step) :=
  blind_ite h (blind_throw _)

/-- A sub-query is opened in a fresh draft, whose clause is empty. -/
theorem blind_openNested (model : Model s) (place : TablePath) :
    Blind (modifyGet (·.openNested model place)) := by
  refine blind_modifyGet fun d p => ?_
  simp only [openNested, aliasOf_withPredicate]
  rfl

/-- What runs on a draft of its own sees nothing of the outer draft. -/
theorem blind_within {α : Type} (sub : Draft s) (step : Build s α) : Blind (within sub step) := by
  intro p d r e hrun
  rw [runs_within] at hrun ⊢
  rcases hrun with ⟨hstep, rfl⟩
  exact ⟨hstep, rfl⟩

/-- A finished sub-query is joined next to the clause. -/
theorem blind_joinDerived (path : TablePath) (model : Model s) (derived : String → Join Statement) :
    Blind (modify (·.joinDerived path model derived)) := by
  refine blind_modify fun d p => ?_
  unfold joinDerived
  -- whether the path is joined does not depend on the clause
  by_cases hjoined : d.isJoined path = true
  · rw [if_pos hjoined, if_pos (show (d.withPredicate p).isJoined path = true from hjoined)]
  · rw [if_neg hjoined, if_neg (show ¬(d.withPredicate p).isJoined path = true from hjoined)]
    simp only [aliasOf_withPredicate]
    rfl

/-- A sub-query is built in a draft of its own, which does not depend on the clause. -/
theorem blind_derivedJoin {relation : Relation s} {subquery conditions : List (Condition s)}
    (table : TablePath) (column : Column s)
    (hconditions : ∀ path, Blind (buildEach conditions path)) :
    Blind (build (.derivedJoin column relation subquery conditions) table) := by
  rw [build]
  refine blind_get (fun _ _ => rfl) fun d => (blind_aliasOf table).bind fun parentAlias => ?_
  refine (blind_openNested relation.target _).bind fun sub => (blind_within sub _).bind fun done => ?_
  refine (blind_modify fun _ _ => rfl).bind fun _ => (blind_joinDerived _ _ _).bind fun _ => ?_
  exact (hconditions _).bind fun _ => blind_pure _

/-- A selection is blind if the conditions on the selected relation are. -/
theorem blind_buildSelect {conditions : List (Condition s)} (table : TablePath) (column : Column s)
    (hconditions : ∀ path, Blind (buildEach conditions path)) :
    Blind (buildSelect ⟨column, conditions⟩ table) := by
  rw [buildSelect]
  refine blind_ite ?_ ?_
  · exact (blind_joinColumn table column).bind fun path => (blind_columnAt path _).bind fun _ =>
      (blind_modify fun d p => d.addSelect_withPredicate _ p).bind fun _ => blind_pure _
  · refine (blind_includeRelation table column).bind fun _ => blind_ite (blind_pure _) ?_
    exact (blind_joinRelation table column).bind fun path => (hconditions path).bind fun _ =>
      blind_pure _

mutual

/-- Building a condition leaves the WHERE clause alone. -/
theorem build_blind : ∀ (c : Condition s) (table : TablePath), Blind (build c table)
  -- Each form joins its columns and then binds its values, both blind; the forms with documents
  -- call the lemmas on lists of conditions.
  | .comparison rule template columns values, table => by
    rw [build]
    exact (blind_joinColumns table columns).bind fun _ => (blind_bindAll values).bind fun _ =>
      blind_pure _
  | .presence rule template columns, table => by
    rw [build]
    exact (blind_joinColumns table columns).bind fun _ => blind_pure _
  | .membership rule template columns values, table => by
    rw [build]
    exact (blind_joinColumns table columns).bind fun _ =>
      (blind_modifyGet fun _ _ => rfl).bind fun _ => blind_pure _
  | .range rule template columns low high, table => by
    rw [build]
    exact (blind_joinColumns table columns).bind fun _ => (blind_bindAll [low, high]).bind fun _ =>
      blind_pure _
  | .overlap rule template columns span, table => by
    rw [build]
    exact (blind_joinColumns table columns).bind fun _ => (blind_bindAll _).bind fun _ =>
      blind_pure _
  | .relationJoin targets, table => by
    rw [build]
    exact (buildJoins_blind _ targets table).bind fun _ => blind_pure _
  | .derivedJoin column relation subquery conditions, table =>
    blind_derivedJoin table column (buildEach_blind conditions)
  | .select targets, table => by
    rw [build]
    exact (buildSelects_blind targets table).bind fun _ => blind_pure _
  | .order entries, table => by
    rw [build]
    exact (blind_atRoot .order table (blind_orderBy table entries)).bind fun _ => blind_pure _
  | .limit n, table => by
    rw [build]
    exact (blind_atRoot .limit table (blind_modify fun _ _ => rfl)).bind fun _ => blind_pure _
  | .offset n, table => by
    rw [build]
    exact (blind_atRoot .offset table (blind_modify fun _ _ => rfl)).bind fun _ => blind_pure _

/-- Conditions that are built one after the other are blind, as each of them is. -/
theorem buildEach_blind : ∀ (conditions : List (Condition s)) (table : TablePath),
    Blind (buildEach conditions table)
  | [], table => by
    rw [buildEach]
    exact blind_pure _
  | condition :: conditions, table => by
    rw [buildEach]
    exact (build_blind condition table).bind fun _ => (buildEach_blind conditions table).bind fun _ =>
      blind_pure _

theorem buildDocuments_blind : ∀ (documents : List (List (Condition s))) (table : TablePath),
    Blind (buildDocuments documents table)
  | [], table => by
    rw [buildDocuments]
    exact blind_pure _
  | document :: documents, table => by
    rw [buildDocuments]
    exact (buildEach_blind document table).bind fun _ =>
      (buildDocuments_blind documents table).bind fun _ => blind_pure _

theorem buildJoins_blind (within : Connective) :
    ∀ (targets : List (Target s (List (List (Condition s))))) (table : TablePath),
      Blind (buildJoins within targets table)
  | [], table => by
    rw [buildJoins]
    exact blind_pure _
  | ⟨column, documents⟩ :: targets, table => by
    rw [buildJoins, buildJoin]
    refine Blind.bind ?_ fun _ => (buildJoins_blind within targets table).bind fun _ => blind_pure _
    exact (blind_joinRelation table column).bind fun path =>
      (buildDocuments_blind documents path).bind fun _ => blind_pure _

theorem buildSelects_blind : ∀ (targets : List (Target s (List (Condition s)))) (table : TablePath),
    Blind (buildSelects targets table)
  | [], table => by
    rw [buildSelects]
    exact blind_pure _
  | ⟨column, conditions⟩ :: targets, table => by
    rw [buildSelects]
    exact (blind_buildSelect table column (buildEach_blind conditions)).bind fun _ =>
      (buildSelects_blind targets table).bind fun _ => blind_pure _

end

/-! ## The WHERE clause -/

/-- The tree of the first condition, if it has one, is pushed before the rest is built. -/
theorem buildWhere_cons_runs_iff {condition : Condition s} {conditions : List (Condition s)}
    {table : TablePath} {d e : Draft s} :
    (buildWhere (condition :: conditions) table).Runs d () e ↔ ∃ tree d₁,
      (build condition table).Runs d tree d₁ ∧ (buildWhere conditions table).Runs
        (d₁.withPredicate (tree.toList.foldl Predicate.push d₁.predicate)) () e := by
  simp only [buildWhere, runs_bind]
  refine exists_congr fun tree => exists_congr fun d₁ => and_congr_right fun _ => ?_
  cases tree with
  | none => exact Iff.rfl
  | some tree =>
    simp only [runs_bind, runs_modify]
    constructor
    · rintro ⟨_, _, rfl, h⟩
      exact h
    · intro h
      exact ⟨(), _, rfl, h⟩

/-- The WHERE clause takes the trees of the conditions, and all else is as if they were built
without it. -/
theorem buildWhere_runs_iff {conditions : List (Condition s)} {table : TablePath} {d e : Draft s} :
    (buildWhere conditions table).Runs d () e ↔ ∃ trees e',
      (buildEach conditions table).Runs d trees e' ∧
        e = e'.withPredicate (trees.foldl Predicate.push d.predicate) := by
  induction conditions generalizing d with
  | nil =>
    rw [buildWhere, buildEach]
    simp only [runs_pure]
    constructor
    · rintro ⟨_, rfl⟩
      exact ⟨[], d, ⟨rfl, rfl⟩, rfl⟩
    · rintro ⟨_, _, ⟨rfl, rfl⟩, rfl⟩
      exact ⟨trivial, rfl⟩
  | cons condition conditions ih =>
    have hblind := buildEach_blind conditions table
    rw [buildWhere_cons_runs_iff]
    simp only [ih, buildEach, runs_bind, runs_pure]
    constructor
    · rintro ⟨tree, d₁, hfirst, trees, e', htrees, rfl⟩
      have hkept := (build_blind condition table).predicate_eq hfirst
      have htrees' := hblind d₁.predicate _ _ _ htrees
      refine ⟨tree.toList ++ trees, _, ⟨tree, d₁, hfirst, trees, _, htrees', rfl, rfl⟩, ?_⟩
      rw [List.foldl_append, ← hkept]
      rfl
    · rintro ⟨_, _, ⟨tree, d₁, hfirst, trees, e', htrees, rfl, rfl⟩, rfl⟩
      have hkept := (build_blind condition table).predicate_eq hfirst
      refine ⟨tree, d₁, hfirst, trees, _, hblind _ _ _ _ htrees, ?_⟩
      rw [List.foldl_append, ← hkept]
      rfl

end Condition

namespace Query

open Condition

variable {model : String} {query : Json} {config : Config} {root : Model s}
  {conditions : List (Condition s)} {done : Draft s} {plan : Plan}

/-- Compiling builds the conditions one by one, and the WHERE clause is the conjunction of their
trees. -/
theorem Compiles.buildEach (h : Compiles s model query config root conditions done plan) :
    ∃ trees e, (Condition.buildEach conditions (.root root.table)).Runs (Draft.new root config) trees e ∧
      done = e.withPredicate (.all trees) := by
  rcases buildWhere_runs_iff.1 h.run with ⟨trees, e, htrees, hdone⟩
  refine ⟨trees, e, htrees, ?_⟩
  rw [hdone]
  exact congrArg e.withPredicate (Predicate.foldl_push .and [] trees)

end Query

end DocQuery
