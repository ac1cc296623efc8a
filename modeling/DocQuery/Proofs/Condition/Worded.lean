import DocQuery.Proofs.Document.Access
import DocQuery.Proofs.Mask.Document
import DocQuery.Proofs.Statement.Sound

namespace DocQuery

/-! # Templates and operands of conditions

A condition is `Worded` if its template has a place for each column and parameter of one test, and
its operands are of a given kind: one by one, except that a membership has a list of them. Every
condition of a document is worded, as the rules of the grammar are.

* `entryGives_worded`: an entry gives a worded condition.
* `worded_of_ofDocument`: so does a document, with all that is nested in it.
-/

/-! ## Rules -/

namespace Template

/-- The template has this many places, and no colons and no quotes of its own. -/
def Fits (template : String) (places : Nat) : Prop :=
  Takes template places ∧ Bare template

instance (template : String) (places : Nat) : Decidable (Fits template places) :=
  inferInstanceAs (Decidable ((_ ∧ _) ∧ _))

/-- The templates of tests against a list. -/
def memberships : List String := ["%s IN (%s)", "%s NOT IN (%s)"]

/-- A membership has a place for its column and one for its list. -/
theorem fits_of_mem_memberships : ∀ template ∈ memberships, Fits template 2 := by decide +kernel

end Template

namespace Rule

/-- The rule's template has a place for each column and parameter of one test, and a rule that tests
against a list takes arrays only. -/
def wellWorded (rule : Rule) : Bool :=
  match rule.form with
  | .comparison template _ => decide (Template.Fits template 2)
  | .presence template => decide (Template.Fits template 1)
  | .membership template => decide (template ∈ Template.memberships ∧ rule.shapes = [.array])
  | .range template => decide (Template.Fits template 3)
  | .overlap template => decide (Template.Fits template 4)
  | _ => true

/-- Every row of the grammar is well worded. -/
theorem wellWorded_of_mem : ∀ rule ∈ table, rule.wellWorded = true := by decide +kernel

/-- A rule that is found accepts the value. -/
theorem accepts_of_find? {operator name : String} {value : Json} {rule : Rule}
    (h : find? operator name value = some rule) : rule.shapes.any (·.accepts value) = true := by
  unfold find? findIn? at h
  have hrule := List.find?_some h
  rw [Bool.and_eq_true, accepts, Bool.and_eq_true] at hrule
  exact hrule.1.2

end Rule

/-! ## Conditions -/

variable {s : Schema}

namespace Condition

/-- Templates have a place for each column and parameter, and operands are of the given kind. -/
inductive Worded (allowed : Operand → Prop) : Condition s → Prop where
  | comparison {rule template : String} {columns : List (Column s)} {values : List Operand}
      (fits : Template.Fits template 2) (some_column : columns ≠ [])
      (values_allowed : ∀ v ∈ values, allowed v) :
      Worded allowed (.comparison rule template columns values)
  | presence {rule template : String} {columns : List (Column s)}
      (fits : Template.Fits template 1) : Worded allowed (.presence rule template columns)
  | membership {rule template : String} {columns : List (Column s)} {values : List Operand}
      (listed : template ∈ Template.memberships) (some_column : columns ≠ [])
      (some_value : values ≠ []) (values_allowed : ∀ v ∈ values, allowed v) :
      Worded allowed (.membership rule template columns (.list values))
  | range {rule template : String} {columns : List (Column s)} {low high : Operand}
      (fits : Template.Fits template 3) (some_column : columns ≠ []) (low_allowed : allowed low)
      (high_allowed : allowed high) : Worded allowed (.range rule template columns low high)
  | overlap {rule template : String} {columns : List (Column s)} {span : TimeSpan}
      (fits : Template.Fits template 4) (some_column : columns ≠ [])
      (start_allowed : allowed (.instant span.start)) (stop_allowed : allowed (.instant span.stop)) :
      Worded allowed (.overlap rule template columns span)
  | relationJoin {targets : List (Target s (List (List (Condition s))))}
      (nested : ∀ t ∈ targets, ∀ document ∈ t.nested, ∀ c ∈ document, Worded allowed c) :
      Worded allowed (.relationJoin targets)
  | derivedJoin {column : Column s} {relation : Relation s} {subquery conditions : List (Condition s)}
      (rows : ∀ c ∈ subquery, Worded allowed c) (nested : ∀ c ∈ conditions, Worded allowed c) :
      Worded allowed (.derivedJoin column relation subquery conditions)
  | select {targets : List (Target s (List (Condition s)))}
      (nested : ∀ t ∈ targets, ∀ c ∈ t.nested, Worded allowed c) : Worded allowed (.select targets)
  | order (entries : List (Column s × Direction)) : Worded allowed (.order entries)
  | limit (n : Nat) : Worded allowed (.limit n)
  | offset (n : Nat) : Worded allowed (.offset n)

/-- Each single value of an entry, unless a function is called, is bound as an allowed operand. -/
def BindsAllowed (allowed : Operand → Prop) (text : String) (value : Json) : Prop :=
  Key.callsFunction text = false → ∀ item ∈ items value, ∀ v, Operand.ofJson? item = some v → allowed v

variable {allowed : Operand → Prop} {m : Model s} {columns : List (Column s)} {value : Json}
  {readers : List (DocumentReader s)} {c : Condition s}

/-- A value is bound as an instant or as what it denotes. -/
theorem allowed_of_bind (hinstant : ∀ t, allowed (.instant t)) {label : String} {item : Json}
    {chronological : Bool} {v : Operand} (hitem : ∀ v, Operand.ofJson? item = some v → allowed v)
    (h : Operand.bind label item chronological = .ok v) : allowed v := by
  unfold Operand.bind at h
  split at h
  · split at h
    · cases h
      exact hinstant _
    · cases h
  · split at h
    · rename_i operand hoperand
      cases h
      exact hitem _ hoperand
    · cases h

/-- The items of a list are bound as what they denote. -/
theorem allowed_of_ofItems? {values : List Operand} : ∀ {items : List Json},
    (∀ item ∈ items, ∀ v, Operand.ofJson? item = some v → allowed v) →
      Operand.ofItems? items = some values → (∀ v ∈ values, allowed v) ∧ values.length = items.length
  | [], _, h => by
    cases h
    exact ⟨List.forall_mem_nil _, rfl⟩
  | item :: items, hitems, h => by
    rw [Operand.ofItems?] at h
    split at h
    · rename_i first rest hfirst hrest
      cases h
      rcases allowed_of_ofItems? (fun item hitem => hitems item (List.mem_cons_of_mem _ hitem)) hrest
        with ⟨hall, hlength⟩
      refine ⟨fun v hv => ?_, congrArg (· + 1) hlength⟩
      rcases List.mem_cons.1 hv with rfl | hv
      · exact hitems item List.mem_cons_self _ hfirst
      · exact hall v hv
    · cases h

/-- A list that is accepted has items. -/
theorem nonempty_of_check {label : String} {values : List Json}
    (h : checkNonempty label values = .ok ()) : values ≠ [] := by
  rintro rfl
  cases h

/-- A comparison has a place for its column and one for a value. -/
theorem worded_of_ofComparison {rule template : String} {temporal : Bool}
    (hfits : Template.Fits template 2) (hcolumns : columns ≠ [])
    (hinstant : ∀ t, allowed (.instant t))
    (hvalue : ∀ item ∈ items value, ∀ v, Operand.ofJson? item = some v → allowed v)
    (h : ofComparison rule template temporal columns value = .ok c) : c.Worded allowed := by
  simp only [ofComparison, bind_eq_ok_iff, pure_eq_ok_iff] at h
  rcases h with ⟨_, _, _, _, values, hvalues, rfl⟩
  refine .comparison hfits hcolumns fun v hv => ?_
  rcases exists_of_mapM hvalues hv with ⟨item, hitem, hbind⟩
  exact allowed_of_bind hinstant (hvalue item hitem) hbind

/-- A membership binds the list of its values. -/
theorem worded_of_ofMembership {rule template : String} (hlisted : template ∈ Template.memberships)
    (hcolumns : columns ≠ []) {array : List Json}
    (hvalue : ∀ item ∈ array, ∀ v, Operand.ofJson? item = some v → allowed v)
    (h : ofMembership rule template columns (.array array) = .ok c) : c.Worded allowed := by
  simp only [ofMembership, bind_eq_ok_iff, pure_eq_ok_iff] at h
  rcases h with ⟨_, _, _, hnonempty, values, hvalues, rfl⟩
  rw [Operand.bind_ok_iff_denotes (.inl rfl), Operand.ofJson?, Option.map_eq_some_iff] at hvalues
  rcases hvalues with ⟨list, hlist, rfl⟩
  rcases allowed_of_ofItems? hvalue hlist with ⟨hall, hlength⟩
  refine .membership hlisted hcolumns ?_ hall
  rintro rfl
  exact nonempty_of_check hnonempty (List.length_eq_zero_iff.1 hlength.symm)

/-- A range has places for its column and two ends. -/
theorem worded_of_ofRange {rule template : String} (hfits : Template.Fits template 3)
    (hcolumns : columns ≠ []) (hinstant : ∀ t, allowed (.instant t))
    (hvalue : ∀ item ∈ items value, ∀ v, Operand.ofJson? item = some v → allowed v)
    (h : ofRange rule template columns value = .ok c) : c.Worded allowed := by
  simp only [ofRange, bind_eq_ok_iff] at h
  rcases h with ⟨_, _, h⟩
  split at h
  · rename_i low high hitems
    simp only [bind_eq_ok_iff, pure_eq_ok_iff] at h
    rcases h with ⟨lowest, hlow, highest, hhigh, rfl⟩
    rw [hitems] at hvalue
    exact .range hfits hcolumns
      (allowed_of_bind hinstant (hvalue low List.mem_cons_self) hlow)
      (allowed_of_bind hinstant (hvalue high (List.mem_cons_of_mem _ List.mem_cons_self)) hhigh)
  · cases h

/-- An overlap has places for two columns and two ends. -/
theorem worded_of_ofOverlap {rule template : String} (hfits : Template.Fits template 4)
    (hcolumns : columns ≠ []) (hinstant : ∀ t, allowed (.instant t))
    (h : ofOverlap rule template columns value = .ok c) : c.Worded allowed := by
  simp only [ofOverlap, bind_eq_ok_iff] at h
  rcases h with ⟨_, _, h⟩
  split at h
  · cases h
  · simp only [bind_eq_ok_iff, pure_eq_ok_iff] at h
    rcases h with ⟨span, _, rfl⟩
    exact .overlap hfits hcolumns (hinstant _) (hinstant _)

/-- A relation join and a derived table are worded if what is nested in them is. -/
theorem nests_worded : Nests (s := s) (Worded allowed) := ⟨.relationJoin, .derivedJoin⟩

/-- So is a selection. -/
theorem worded_of_ofSelect (hreaders : ∀ read ∈ readers, Gives (fun _ c => c.Worded allowed) read)
    (h : ofSelect columns value readers = .ok c) : c.Worded allowed := by
  rcases nested_of_ofSelect hreaders h with ⟨targets, rfl, htargets⟩
  exact .select fun t ht => (htargets t ht).2

/-- A function has neither a template nor operands. -/
theorem worded_of_ofFunction (h : ofFunction m columns value = .ok c) : c.Worded allowed := by
  rcases parts_of_ofFunction h with ⟨entries, rfl, _⟩ | ⟨n, rfl⟩ | ⟨n, rfl⟩
  · exact .order entries
  · exact .limit n
  · exact .offset n

/-- A key has columns. -/
theorem columns_ne_nil {text : String} {key : Key} (h : Key.parse text = some key) :
    key.columns ≠ [] := by
  unfold Key.parse at h
  generalize Key.takeOrdinal text.toList = parts at h
  rcases parts with ⟨ordinal, rest⟩
  simp only at h
  generalize (if (Key.splitAtLastWord rest).2.getLast? = some ']' then (rest, [])
    else ((Key.splitAtLastWord rest).1, (Key.splitAtLastWord rest).2)) = split at h
  rcases split with ⟨columns, operator⟩
  simp only at h
  split at h
  · cases h
  · cases h
    intro hnil
    exact List.splitOn_ne_nil _ _ (List.map_eq_nil_iff.1 hnil)

/-- An entry is worded if the documents in its value are. -/
theorem entryGives_worded (hinstant : ∀ t, allowed (.instant t)) :
    EntryGivesIf (s := s) (BindsAllowed allowed) fun _ c => c.Worded allowed := by
  intro model text value readers c hvalue hreaders h
  rcases ofEntry_eq_ok_iff.1 h with ⟨key, rule, hkey, hrule, h⟩
  rcases Rule.mem_of_find? hrule with ⟨htable, hoperator, _⟩
  have hworded := Rule.wellWorded_of_mem rule htable
  have hcolumns : key.columns.map (Column.ofText model) ≠ [] := by
    rw [Ne, List.map_eq_nil_iff]
    exact columns_ne_nil hkey
  -- only the rule of the functions is for keys that call one
  have hitems : rule.form ≠ .function → ∀ item ∈ items value, ∀ v,
      Operand.ofJson? item = some v → allowed v := by
    intro hform
    refine hvalue ?_
    have hother : key.operator ≠ ":" := by
      rw [← hoperator]
      exact fun hcolon => hform ((Rule.form_function_iff rule htable).2 hcolon)
    simp [Key.callsFunction, hkey, hother]
  unfold ofRule at h
  unfold Rule.wellWorded at hworded
  split at h
  · rename_i template temporal hform
    rw [hform] at hworded
    exact worded_of_ofComparison (of_decide_eq_true hworded) hcolumns hinstant
      (hitems (by rw [hform]; simp)) h
  · rename_i template hform
    rw [hform] at hworded
    simp only [ofPresence, bind_eq_ok_iff, pure_eq_ok_iff] at h
    rcases h with ⟨_, _, rfl⟩
    exact .presence (of_decide_eq_true hworded)
  · rename_i template hform
    rw [hform] at hworded
    rcases of_decide_eq_true hworded with ⟨hlisted, hshapes⟩
    have haccepts := Rule.accepts_of_find? hrule
    rw [hshapes] at haccepts
    -- the rule takes arrays only
    cases value with
    | array array => exact worded_of_ofMembership hlisted hcolumns (hitems (by rw [hform]; simp)) h
    | _ => simp [Shape.accepts] at haccepts
  · rename_i template hform
    rw [hform] at hworded
    exact worded_of_ofRange (of_decide_eq_true hworded) hcolumns hinstant
      (hitems (by rw [hform]; simp)) h
  · rename_i template hform
    rw [hform] at hworded
    exact worded_of_ofOverlap (of_decide_eq_true hworded) hcolumns hinstant h
  · exact nests_worded.ofRelationJoin hreaders h
  · exact nests_worded.ofDerivedJoin hreaders h
  · exact worded_of_ofSelect hreaders h
  · exact worded_of_ofFunction h

/-- The conditions of a document whose single values are bound as allowed operands are worded. -/
theorem worded_of_ofDocument (hinstant : ∀ t, allowed (.instant t)) {query : Json}
    (hquery : query.Entries (BindsAllowed allowed)) {conditions : List (Condition s)}
    (h : ofDocument query m = .ok conditions) : ∀ c ∈ conditions, c.Worded allowed :=
  ofDocument_givesIf (entryGives_worded hinstant) hquery m conditions h

end Condition

end DocQuery
