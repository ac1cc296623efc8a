import DocQuery.Proofs.Build.Context
import DocQuery.Proofs.Through.Column

namespace DocQuery

/-! # Documents and through relations

Wherever in a query a column is tested that is reached over a through relation, it can be reached
over the hops of the relation instead: the query compiles as before, to the same plan. So no table
is joined for the one path that the other has joined already.

* `Reroutes.readReplaced`: an entry that tests a column over a through relation reads like one over
  its hops.
* `compile_rerouted_iff`: a rerouted query compiles as before, to the same plan.
-/

open Build Draft

variable {s : Schema}

namespace Condition

variable {m : Model s} {columns columns' : List (Column s)} {value : Json}
  {readers : List (DocumentReader s)} {c : Condition s} {K : Model s → Prop}

/-! ## Tests -/

/-- What a rule makes of a value tests any columns in the same way. -/
theorem Makes.testsAs {rule : Rule} {chronological : Bool} {count : Nat}
    {make : List (Column s) → Condition s} (h : Makes rule value chronological count make)
    (columns columns' : List (Column s)) : TestsAs columns columns' (make columns) (make columns') := by
  cases h with
  | comparison => exact .comparison
  | presence => exact .presence
  | membership => exact .membership
  | range => exact .range
  | overlap => exact .overlap

/-- A test can be made of columns that stand for its own, and it can be replaced by that test. -/
theorem ofRule_test_replaced {rule : Rule} (htest : rule.form.isTest = true)
    (hmodel : ∀ c ∈ columns, c.model = m) (hmodel' : ∀ c ∈ columns', c.model = m)
    (hstand : List.Forall₂ (fun c c' => c'.StandsFor m c) columns columns')
    (h : ofRule rule m columns value readers = .ok c) :
    ∃ c', ofRule rule m columns' value readers = .ok c' ∧ ReplacedBy m [c] [c'] := by
  rcases (ofRule_test_iff htest hmodel).1 h with ⟨hreached, make, hmakes, rfl⟩
  -- column by column, the same table and a type that is chronological if the other is
  have hsame : List.Forall₂ (Column.SameTable m) columns columns' ∧
      columns'.any Column.isChronological = columns.any Column.isChronological := by
    clear h hmakes hmodel hmodel'
    induction hstand with
    | nil => exact ⟨.nil, rfl⟩
    | @cons c c' columns columns' hfirst _ ih =>
      rcases hfirst (hreached c List.mem_cons_self) with ⟨htable, hchronological⟩
      rcases ih fun c hc => hreached c (List.mem_cons_of_mem _ hc) with ⟨htables, hany⟩
      exact ⟨.cons htable htables, by rw [List.any_cons, List.any_cons, hchronological, hany]⟩
  rcases hsame with ⟨htables, hchronological⟩
  refine ⟨make columns', (ofRule_test_iff htest hmodel').2 ⟨fun c' hc' => ?_, make, ?_, rfl⟩,
    replacedBy_test htables (hmakes.testsAs columns columns')⟩
  · rcases exists_mem_of_forall₂ htables hc' with ⟨c, _, htable⟩
    exact htable.reached'
  · rw [hchronological, ← htables.length_eq]
    exact hmakes

/-! ## Entries -/

/-- An entry that tests columns can be replaced by one that tests columns which stand for them. -/
theorem readReplaced_of_standsFor {text text' : String} {key key' : Key} {rule : Rule}
    (hkey : Key.parse text = some key) (hkey' : Key.parse text' = some key')
    (hoperator : key'.operator = key.operator)
    (hrule : Rule.find? key.operator (key.columns.head?.getD "") value = some rule)
    (htest : rule.form.isTest = true)
    (hstand : ∀ m, K m → List.Forall₂ (fun spec spec' =>
      (Column.ofText m spec').StandsFor m (Column.ofText m spec)) key.columns key'.columns) :
    ReadReplaced K (ofFields [(text, value)]) (ofFields [(text', value)]) := by
  intro m conditions hm h
  rcases ofFields_singleton_eq_ok_iff.1 h with ⟨c, hc, rfl⟩
  have hmodel : ∀ (specs : List String), ∀ c ∈ specs.map (Column.ofText m), c.model = m := by
    intro specs c hc
    rcases List.mem_map.1 hc with ⟨spec, _, rfl⟩
    rfl
  -- a rule for tests is found by its operator, whatever the first column is
  have hrule' : Rule.find? key'.operator (key'.columns.head?.getD "") value = some rule := by
    rw [hoperator]
    exact Rule.find?_of_name _ hrule (Form.ne_function_of_isTest htest)
  have hmade : ofRule rule m (key.columns.map (Column.ofText m)) value (readersOf value) = .ok c := by
    simp only [ofEntry_eq, hkey, hrule] at hc
    exact hc
  have hcolumns : List.Forall₂ (fun c c' => c'.StandsFor m c) (key.columns.map (Column.ofText m))
      (key'.columns.map (Column.ofText m)) := by
    rw [List.forall₂_map_left_iff, List.forall₂_map_right_iff]
    exact hstand m hm
  rcases ofRule_test_replaced htest (hmodel _) (hmodel _) hcolumns hmade with ⟨c', hmade', hreplaced⟩
  refine ⟨[c'], ofFields_singleton_eq_ok_iff.2 ⟨c', ?_, rfl⟩, hreplaced⟩
  simp only [ofEntry_eq, hkey', hrule']
  exact hmade'

/-- In the first document an entry tests a column that is reached over a path and the relation
`name` at its end. In the second the hops of the relation stand in its place: `name` goes over `hop`
and `hop'` wherever the path leads from a model that the document is read on. The entries have one
operator and their other columns in common, and other entries stand before and after them. -/
inductive Reroutes (K : Model s → Prop) : List (String × Json) → List (String × Json) → Prop where
  | entry {front back : List (String × Json)} {text text' : String} {value : Json} {key key' : Key}
      {rule : Rule} {before after path : List String} {column column' name hop hop' last : String}
      (parsed : Key.parse text = some key) (parsed' : Key.parse text' = some key')
      (operator : key'.operator = key.operator)
      (columns : key.columns = before ++ column :: after)
      (columns' : key'.columns = before ++ column' :: after)
      (found : Rule.find? key.operator (key.columns.head?.getD "") value = some rule)
      (test : rule.form.isTest = true)
      (segments : Column.segmentsOf column = path ++ [name, last])
      (segments' : Column.segmentsOf column' = path ++ [hop, hop', last])
      (goes_over : ∀ m, K m → m.GoesOverBehind path name hop hop') :
      Reroutes K (front ++ (text, value) :: back) (front ++ (text', value) :: back)

variable {fields fields' : List (String × Json)}

theorem Reroutes.ne_nil (h : Reroutes K fields fields') : fields ≠ [] ∧ fields' ≠ [] := by
  cases h with
  | entry => simp

/-- A column with a name behind a path, as it is read. -/
theorem ofText_of_segments {spec last : String} {path : List String}
    (h : Column.segmentsOf spec = path ++ [last]) (m : Model s) :
    Column.ofText m spec = ⟨m, path, some last⟩ := by
  simp [Column.ofText, h]

/-- The entry over the through relation and that over its hops can be put in each other's place. -/
theorem Reroutes.readReplaced (h : Reroutes K fields fields') :
    ReadReplaced K (ofFields fields) (ofFields fields') ∧
      ReadReplaced K (ofFields fields') (ofFields fields) := by
  cases h with
  | @entry front back text text' value key key' rule before after path column column' name hop hop' last
      parsed parsed' operator columns columns' found test segments segments' goes_over =>
    have found' : Rule.find? key'.operator (key'.columns.head?.getD "") value = some rule := by
      rw [operator]
      exact Rule.find?_of_name _ found (Form.ne_function_of_isTest test)
    have hcolumn : ∀ m : Model s, Column.ofText m column = ⟨m, path ++ [name], some last⟩ :=
      fun m => ofText_of_segments (by rw [segments, List.append_assoc]; rfl) m
    have hcolumn' : ∀ m : Model s, Column.ofText m column' = ⟨m, path ++ [hop, hop'], some last⟩ :=
      fun m => ofText_of_segments (by rw [segments', List.append_assoc]; rfl) m
    have hself : ∀ (m : Model s) (specs : List String), List.Forall₂ (fun spec spec' =>
        (Column.ofText m spec').StandsFor m (Column.ofText m spec)) specs specs :=
      fun m specs => List.forall₂_same.2 fun spec _ => .refl m _
    -- the columns before and after the rerouted one stand for themselves
    have hthrough : ReadReplaced K (ofFields [(text, value)]) (ofFields [(text', value)]) := by
      refine readReplaced_of_standsFor parsed parsed' operator found test fun m hm => ?_
      rw [columns, columns']
      refine List.rel_append (hself m before) (.cons ?_ (hself m after))
      rw [hcolumn, hcolumn']
      exact Column.standsFor_hops (goes_over m hm)
    have hhops : ReadReplaced K (ofFields [(text', value)]) (ofFields [(text, value)]) := by
      refine readReplaced_of_standsFor parsed' parsed operator.symm found' test fun m hm => ?_
      rw [columns, columns']
      refine List.rel_append (hself m before) (.cons ?_ (hself m after))
      rw [hcolumn, hcolumn']
      exact Column.standsFor_through (goes_over m hm)
    -- the entries around it are read as they were
    have hsplit : ∀ text : String,
        front ++ (text, value) :: back = front ++ [(text, value)] ++ back := by
      intro text
      rw [List.append_assoc, List.singleton_append]
    rw [hsplit text, hsplit text']
    exact ⟨hthrough.between front back, hhops.between front back⟩

end Condition

/-! ## Queries -/

namespace Query

open Condition

variable {query query' : Json} {model : String} {config : Config} {plan : Plan}

/-- Wherever in a query a column is tested behind a through relation, it can be tested behind the
hops of the relation: the query compiles as before, to the same plan. -/
theorem compile_rerouted_iff
    (h : RewritesOn Reroutes (fun m : Model s => m.name = model) query query') :
    compile s model query config = .ok plan ↔ compile s model query' config = .ok plan := by
  constructor
  · refine compile_of_readReplaced ?_
    exact h.readReplaced (fun _ _ _ hentry => hentry.ne_nil) fun _ _ _ hentry => hentry.readReplaced.1
  · refine compile_of_readReplaced ?_
    exact h.flip.readReplaced (fun _ _ _ hentry => hentry.ne_nil.symm) fun _ _ _ hentry =>
      hentry.readReplaced.2

/-- A query for people with an article that bears one of two titles, or whose author comes upon one
of them over `title`. -/
def reviewing (title : String) : Json :=
  .object
    [("friends.articles.rating>", .number (.int 3)),
      ("articles=>", .object
        [("author.friends.surname~", .string "D%"),
          ("2:title|author." ++ title ++ "=", .array [.string "Loops", .string "Trees"]),
          ("author.readings.rating", .bool true)])]

/-- The articles of people are by people, whose readings are the articles of their friends. -/
theorem readings_goesOver {key : Key} (hcolumns : key.columns = ["articles"]) {m : Model Schema.people}
    (hm : key.rowsFrom (fun m => m.name = "Person") m) :
    m.GoesOverBehind ["author"] "readings" "friends" "articles" := by
  -- what is computed on the schema: the way back, and the hops of the relation with their
  -- protection
  have hperson : (Schema.people.model? "Person").any (fun person =>
      (Column.ofText person "articles").relationTarget?.bind (Column.walk · ["author"]) = some person) =
      true := by decide +kernel
  have hreadings : (Schema.people.model? "Person").any (fun person =>
      person.isProtected "readings" = false ∧ person.isProtected "friends" = false ∧
        ((person.relation? "readings").bind Relation.hops?).any fun hops =>
          hops.1.name = "friends" ∧ hops.2.name = "articles" ∧
            hops.1.target.isProtected "articles" = false) = true := by decide +kernel
  rcases (Option.any_eq_true _ _).1 hperson with ⟨person, hmodel, hauthor⟩
  rw [hmodel, Option.any_some] at hreadings
  simp only [Option.any_eq_true, Option.bind_eq_some_iff, decide_eq_true_eq] at hauthor hreadings
  rcases hreadings with
      ⟨hshown, hfirst, ⟨first, second⟩, ⟨r, hr, hhops⟩, hfriends, harticles, hsecond⟩
  rcases hm with ⟨other, hname, text, htext, htarget⟩
  have hother : other = person := Model.ext (hname.trans (Schema.name_of_model? hmodel).symm)
  rw [hcolumns, List.mem_singleton] at htext
  subst hother htext
  intro k hopen
  rcases hauthor with ⟨m', hm', hback⟩
  rw [htarget] at hm'
  cases hm'
  have hk : k = other := Option.some.inj (hopen.walk_eq.symm.trans hback)
  subst hk
  exact ⟨first, second, hfriends, harticles,
    .of_hops? hr hhops hshown (hfriends ▸ hfirst) (harticles ▸ hsecond)⟩

theorem compile_reviewing : ∃ plan,
    compile Schema.people "Person" (reviewing "readings.title") {} = .ok plan ∧
    compile Schema.people "Person" (reviewing "friends.articles.title") {} = .ok plan ∧
    plan.bindings.map Prod.fst = ["p1", "p2", "p3", "p4"] := by
  have hnames : (compile Schema.people "Person" (reviewing "readings.title") {}).toOption.map
      (fun plan => plan.bindings.map Prod.fst) = some ["p1", "p2", "p3", "p4"] := by
    decide +kernel
  rcases exists_of_map_toOption hnames with ⟨plan, hplan, hfour⟩
  have harticles : Key.parse "articles=>" = some ⟨none, ["articles"], "=>"⟩ := by decide +kernel
  have hthrough : Key.parse "2:title|author.readings.title=" =
      some ⟨some "2", ["title", "author.readings.title"], "="⟩ := by decide +kernel
  have hhops : Key.parse "2:title|author.friends.articles.title=" =
      some ⟨some "2", ["title", "author.friends.articles.title"], "="⟩ := by decide +kernel
  have hrule : Rule.find? "=" "title" (.array [.string "Loops", .string "Trees"]) =
      some ⟨"Equal", "=", [.array, .string, .number, .bool], .comparison "%s = %s" false,
        "equal (any of, for arrays)"⟩ := by decide +kernel
  have hentry : ∀ {K : Model Schema.people → Prop},
      (∀ m, K m → m.GoesOverBehind ["author"] "readings" "friends" "articles") →
      Reroutes K
        ([("author.friends.surname~", .string "D%")] ++ ("2:title|author.readings.title=",
          .array [.string "Loops", .string "Trees"]) :: [("author.readings.rating", .bool true)])
        ([("author.friends.surname~", .string "D%")] ++ ("2:title|author.friends.articles.title=",
          .array [.string "Loops", .string "Trees"]) :: [("author.readings.rating", .bool true)]) := by
    intro K hover
    exact @Reroutes.entry _ K [("author.friends.surname~", .string "D%")]
      [("author.readings.rating", .bool true)] _ _ _ _ _ _ ["title"] [] ["author"]
      "author.readings.title" "author.friends.articles.title" "readings" "friends" "articles" "title"
      hthrough hhops rfl rfl rfl hrule rfl (by decide +kernel) (by decide +kernel) hover
  have hrewrites : RewritesOn Reroutes (fun m : Model Schema.people => m.name = "Person")
      (reviewing "readings.title") (reviewing "friends.articles.title") :=
    @RewritesOn.entry _ _ _ [("friends.articles.rating>", .number (.int 3))] [] _ _ _ _ harticles
      (.inl rfl)
      (.here (hentry fun m hm => readings_goesOver rfl hm))
  exact ⟨plan, hplan, (compile_rerouted_iff hrewrites).1 hplan, hfour⟩

end Query

end DocQuery
