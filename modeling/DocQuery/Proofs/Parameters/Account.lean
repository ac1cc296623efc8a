import DocQuery.Proofs.Build.Blind
import DocQuery.Proofs.Build.Spelled

namespace DocQuery

/-! # Parameters of a compiled statement

The parameters of a statement are those of its tests, the tests in embedded sub-queries included,
and all of them have been bound. What a build writes into a draft carries this over to the statement
of a query.

* `Compiles.accounts`: the parameters of a compiled statement are those that have been bound, each
  used by a test.
* `Compiles.sound`: the statement is spelled in the characters that the names of the schema are made
  of.
-/

open Draft Predicate

variable {s : Schema} {p : Char → Prop} {allowed : Operand → Prop}

/-- The names of the first `n` parameters. -/
def Config.paramNames (config : Config) (n : Nat) : List String :=
  (List.range' 1 n).map fun i => config.paramStem ++ toString i

/-- Parameters are told apart by their numbers. -/
theorem Config.nodup_paramNames (config : Config) (n : Nat) : (config.paramNames n).Nodup := by
  refine List.Nodup.map (fun i j hij => ?_) List.nodup_range'
  have hlist := congrArg String.toList hij
  simp only [String.toList_append] at hlist
  exact toString_inj (String.toList_inj.1 (List.append_cancel_left hlist))

/-- The names of parameters are words if the configuration is valid. -/
theorem Config.isWordChar_of_mem_paramNames {config : Config} (hvalid : config.validate = .ok ())
    {n : Nat} {name : String} (hname : name ∈ config.paramNames n) :
    ∀ c ∈ name.toList, isWordChar c = true := by
  have hstem : config.paramStem.toList.all isStemChar = true := by
    unfold validate at hvalid
    split at hvalid
    · cases hvalid
    · split at hvalid
      · cases hvalid
      · rename_i hstem
        simpa using (not_or.1 hstem).2
  rcases List.mem_map.1 hname with ⟨i, _, rfl⟩
  intro c hc
  rw [String.toList_append, List.mem_append] at hc
  -- a name is the stem and a number
  rcases hc with hc | hc
  · have hletter := List.all_eq_true.1 hstem c hc
    rw [isStemChar, Bool.or_eq_true] at hletter
    rcases hletter with hletter | hletter
    · exact isWordChar_of_isAlphanum (by simp [Char.isAlphanum, hletter])
    · rw [eq_of_beq hletter]
      exact isWordChar_underscore
  · rw [Nat.toString_eq_repr, Nat.toList_repr] at hc
    have hdigit := Nat.isDigit_of_mem_toDigits (by decide) (by decide) hc
    exact isWordChar_of_isAlphanum (by simp [Char.isAlphanum, hdigit])

/-- The parameters of the statement are bound in the order of their numbers: those of its tests and
no others, each to a value that suits the tests with it. -/
structure Statement.Accounts (allowed : Operand → Prop) (config : Config) (st : Statement) : Prop where
  names : st.bindings.map Prod.fst = config.paramNames st.bindings.length
  bound : ∀ t ∈ st.tests, ∀ name ∈ t.params,
    ∃ value, (name, value) ∈ st.bindings ∧ t.Suits allowed value
  used : ∀ b ∈ st.bindings, ∃ t ∈ st.tests, b.1 ∈ t.params
  kept : ∀ b ∈ st.bindings, b.2.Kept allowed

/-- A parameter is looked up as what it is bound to. -/
theorem lookup_of_mem {bindings : List Binding} (hnodup : (bindings.map Prod.fst).Nodup)
    {name : String} {value : Operand} (h : (name, value) ∈ bindings) :
    bindings.lookup name = some value := by
  induction bindings with
  | nil => cases h
  | cons b bindings ih =>
    rw [List.map_cons, List.nodup_cons] at hnodup
    rcases List.mem_cons.1 h with rfl | h
    · rw [List.lookup_cons_self]
    · have hne : name ≠ b.1 := by
        rintro rfl
        exact hnodup.1 (List.mem_map.2 ⟨_, h, rfl⟩)
      have hfalse : (name == b.1) = false := beq_false_of_ne hne
      rw [List.lookup_cons, hfalse]
      exact ih hnodup.2 h

namespace Statement

variable {config : Config} {st : Statement}

/-- The operands of a statement are the parameters of its tests. -/
theorem mem_operands {test : Test} {param : String} :
    (test, param) ∈ st.tests.flatMap Test.operands ↔ test ∈ st.tests ∧ param ∈ test.params := by
  rw [List.mem_flatMap]
  constructor
  · rintro ⟨t, ht, hoperand⟩
    rcases List.mem_map.1 hoperand with ⟨name, hname, heq⟩
    cases heq
    exact ⟨ht, hname⟩
  · rintro ⟨ht, hparam⟩
    exact ⟨test, ht, List.mem_map.2 ⟨param, hparam, rfl⟩⟩

/-- An operand among the tokens has a value that suits its test, and its name ends with it. -/
theorem Accounts.operand (h : st.Accounts allowed config) {quoted : Bool}
    (hreads : Token.Reads p (st.tokens quoted) (st.tests.flatMap Test.operands))
    {front back : List Token} {test : Test} {param : String}
    (hsplit : st.tokens quoted = front ++ .operand test param :: back) :
    ∃ value, st.bindings.lookup param = some value ∧ test.Suits allowed value ∧
      param ∈ config.paramNames st.bindings.length ∧ Token.Apart back := by
  have hmem : .operand test param ∈ st.tokens quoted := by
    rw [hsplit]
    exact List.mem_append_right _ List.mem_cons_self
  rcases mem_operands.1 (hreads.mem_iff.2 hmem) with ⟨htest, hparam⟩
  rcases h.bound test htest param hparam with ⟨value, hvalue, hsuits⟩
  have hnodup : (st.bindings.map Prod.fst).Nodup := by
    rw [h.names]
    exact config.nodup_paramNames _
  -- the names are those that were bound, and what follows an operand does not prolong its name
  refine ⟨value, lookup_of_mem hnodup hvalue, hsuits, ?_, ?_⟩
  · rw [← h.names]
    exact List.mem_map.2 ⟨_, hvalue, rfl⟩
  · rw [hsplit] at hreads
    exact hreads.apart_of_split

theorem Accounts.mem_iff (h : st.Accounts allowed config) {name : String} :
    (∃ test, (test, name) ∈ st.tests.flatMap Test.operands) ↔
      name ∈ config.paramNames st.bindings.length := by
  rw [← h.names]
  constructor
  · rintro ⟨test, htest⟩
    rcases mem_operands.1 htest with ⟨ht, hparam⟩
    rcases h.bound test ht name hparam with ⟨value, hvalue, _⟩
    exact List.mem_map.2 ⟨(name, value), hvalue, rfl⟩
  · intro hname
    rcases List.mem_map.1 hname with ⟨b, hb, rfl⟩
    rcases h.used b hb with ⟨t, ht, hparam⟩
    exact ⟨t, mem_operands.2 ⟨ht, hparam⟩⟩

end Statement

namespace Query

variable {model : String} {query : Json} {config : Config} {root : Model s}
  {conditions : List (Condition s)} {done : Draft s} {plan : Plan}

/-- All values may be bound if nothing is asked of them. -/
theorem binds_any (query : Json) : query.Entries (Condition.BindsAllowed fun _ => True) :=
  fun _ _ _ _ _ _ _ _ => trivial

/-- A query is written into a draft whose WHERE clause is made of the trees written. -/
theorem Compiles.writes (h : Compiles s model query config root conditions done plan)
    (hinstant : ∀ t, allowed (.instant t)) (hquery : query.Entries (Condition.BindsAllowed allowed)) :
    ∃ trees e, Writes allowed (Draft.new root config) (childLeaves trees) e ∧
      done = e.withPredicate (.all trees) := by
  rcases h.buildEach with ⟨trees, e, hrun, hdone⟩
  have hworded := Condition.worded_of_ofDocument hinstant hquery h.conditions_eq
  have hwrites := Condition.buildEach_writes conditions h.admitted hworded
    (ready_withBase root config root.table [] 0) hrun
  exact ⟨trees, e, hwrites, hdone⟩

/-- The statement of a query accounts for its parameters. -/
theorem Compiles.accounts (h : Compiles s model query config root conditions done plan)
    (hinstant : ∀ t, allowed (.instant t)) (hquery : query.Entries (Condition.BindsAllowed allowed)) :
    done.finish.Accounts allowed config := by
  rcases h.writes hinstant hquery with ⟨trees, e, hwrites, rfl⟩
  rcases hwrites.ledger with ⟨added, joins, hledger⟩
  have hbindings : (e.withPredicate (.all trees)).finish.bindings = added := hledger.bindings_eq
  have hjoins : e.joins = joins := hledger.joins_eq
  have htests : (e.withPredicate (.all trees)).finish.tests =
      Statement.joinTests joins ++ childLeaves trees := by
    have hfinish : (e.withPredicate (.all trees)).finish.tests =
        Statement.joinTests e.joins ++ (Predicate.all trees).normalize.leaves := rfl
    rw [hfinish, leaves_normalize, hjoins, leaves_all]
  -- printing puts the tests of the joins first, which changes nothing about what is used
  have hmem : ∀ t, t ∈ (e.withPredicate (.all trees)).finish.tests ↔
      t ∈ childLeaves trees ++ Statement.joinTests joins := by
    intro t
    rw [htests, List.mem_append, List.mem_append, or_comm]
  refine ⟨?_, fun t ht => ?_, fun b hb => ?_, ?_⟩
  · rw [hbindings]
    exact hledger.names
  · rw [hbindings]
    exact hledger.bound t ((hmem t).1 ht)
  · rw [hbindings] at hb
    rcases hledger.used b hb with ⟨t, ht, hname⟩
    exact ⟨t, (hmem t).2 ht, hname⟩
  · rw [hbindings]
    exact hledger.kept

/-- The statement of a query is sound if the schema's identifiers and the stem of aliases are
spelled in the class. -/
theorem Compiles.sound (h : Compiles s model query config root conditions done plan)
    (hinstant : ∀ t, allowed (.instant t)) (hquery : query.Entries (Condition.BindsAllowed allowed))
    (hp : ∀ c, c ≠ ':' → c ≠ '"' → p c) (hs : ∀ name ∈ s.identifiers, Spelled p name)
    (hstem : Spelled p config.aliasStem) : done.finish.Sound p := by
  rcases h.writes hinstant hquery with ⟨trees, e, hwrites, rfl⟩
  have hnew : (Draft.new root config).Spelled p :=
    spelled_withBase hp hs root hstem (root.spelled_table hs) [] 0
  rcases hwrites.spelled hp hs hnew with ⟨he, htests⟩
  refine Draft.Spelled.finish hs
    ⟨he.stem, he.base, he.paths, he.aliases, he.baseAlias, he.select, he.order, he.joins⟩ ?_
  have hleaves : (e.withPredicate (.all trees)).predicate.leaves = childLeaves trees :=
    leaves_all trees
  rw [hleaves]
  exact htests

end Query

end DocQuery
