import DocQuery.Proofs.Parameters.Account
import DocQuery.Proofs.Positional.Agree
import DocQuery.Proofs.Statement.Frames

namespace DocQuery

/-! # Where lists are bound

A list is bound as a whole only where a column is tested against it, in the brackets behind IN; all
other operands stand for one value and get one mark. The grammar leaves one way around this: a list
inside the list of an entry is taken for a single value. Without such lists the rule holds for every
query.

* `bracketsLists_of_compile`: without lists in lists, a list stands in the brackets behind IN only.
* `listInList_unbracketed`: a list inside the list of a comparison is printed without brackets.
-/

open Draft Token PositionalQuery

/-- A value that is no list. -/
def Operand.IsScalar (value : Operand) : Prop := ∀ items, value ≠ .list items

/-- Unless it calls a function, no entry has a list for one of its values. -/
def Json.ListsFlat (query : Json) : Prop :=
  query.Entries fun key value => Key.callsFunction key = false →
    ∀ item ∈ Condition.items value, ∀ inner, item ≠ .array inner

namespace Operand

theorem scalar_of_ofNumber {n : JsonNumber} {v : Operand} (h : ofNumber n = some v) : v.IsScalar := by
  rintro items rfl
  cases n with
  | int i =>
    rw [ofNumber] at h
    split at h
    · cases h
    · rcases Option.map_eq_some_iff.1 h with ⟨x, _, hx⟩
      cases hx
  | float x => cases h

/-- Only a list denotes a list. -/
theorem scalar_of_ofJson? {item : Json} {v : Operand} (hitem : ∀ inner, item ≠ .array inner)
    (h : ofJson? item = some v) : v.IsScalar := by
  cases item with
  | array inner => exact absurd rfl (hitem inner)
  | number n => exact scalar_of_ofNumber h
  | object fields => cases h
  | null =>
    cases h
    rintro items ⟨⟩
  | bool b =>
    cases h
    rintro items ⟨⟩
  | string s =>
    cases h
    rintro items ⟨⟩

theorem IsScalar.elements {value : Operand} (h : value.IsScalar) : value.elements = [value] := by
  cases value with
  | list items => exact absurd rfl (h items)
  | _ => rfl

/-- A bound value stands for scalars. -/
theorem Kept.scalar {value v : Operand} (h : value.Kept IsScalar) (hv : v ∈ value.elements) :
    v.IsScalar := by
  rcases h with hscalar | ⟨items, rfl, _, hitems⟩
  · rw [hscalar.elements, List.mem_singleton] at hv
    rw [hv]
    exact hscalar
  · exact hitems v hv

end Operand

/-- The mark of a single value. -/
def PlaceholderStyle.mark (style : PlaceholderStyle) (place : Nat) : String :=
  match style with
  | dollar => "$" ++ toString (place + 1)
  | question => "?"

theorem PositionalQuery.marks_one (style : PlaceholderStyle) (placed : Nat) :
    marks style placed 1 = style.mark placed := by
  cases style <;> simp [marks, PlaceholderStyle.mark]

/-- The lists that the statement binds are legal: lists of scalars, in the brackets behind IN. So
only scalars are left for positional marks. -/
structure Statement.BracketsLists (quoted : Bool) (st : Statement) : Prop where
  lists : ∀ b ∈ st.bindings, ∀ items, b.2 = .list items →
    items ≠ [] ∧ ∀ item ∈ items, item.IsScalar
  /-- The parameters of all tests are operands in the text. -/
  operands : ∀ test param, .operand test param ∈ st.tokens quoted ↔
    test ∈ st.tests ∧ param ∈ test.params
  bracketed : ∀ front test param back, st.tokens quoted = front ++ .operand test param :: back →
    ∃ value, (st.toPlan quoted).binding? param = some value ∧
      (value.IsScalar ∨ test.IsMembership ∧ plain " IN (" <:+ front ∧ plain ")" <+: back)
  values : ∀ style, ∀ v ∈ ((st.toPlan quoted).toPositional style).values, v.IsScalar

/-- With positional marks each operand of the text is rewritten by itself, and but for tests against
lists to a single mark. -/
def Statement.MarksOperands (quoted : Bool) (st : Statement) : Prop :=
  ∀ style, ∃ write : String → Option (List Char),
    ((st.toPlan quoted).toPositional style).sql.toList
        = substitute id write (textOf (st.tokens quoted)) ∧
      ∀ front test param back, st.tokens quoted = front ++ .operand test param :: back →
        ∃ written, write param = some written ∧
          ((st.toPlan quoted).toPositional style).sql.toList = substitute id write (textOf front)
            ++ (written ++ substitute id write (textOf back)) ∧
          (¬test.IsMembership → ∃ place, written = (style.mark place).toList)

/-- Rendering keeps the bindings. -/
theorem Statement.bindings_toPlan (quoted : Bool) (st : Statement) :
    (st.toPlan quoted).bindings = st.bindings := by
  cases st
  rw [toPlan]

/-- The value of a parameter is looked up among the bindings of the statement. -/
theorem Statement.binding?_toPlan (quoted : Bool) (st : Statement) (name : String) :
    (st.toPlan quoted).binding? name = st.bindings.lookup name :=
  congrArg (List.lookup name) (st.bindings_toPlan quoted)

/-- Sound accounts of scalars bracket their lists. -/
theorem Statement.Accounts.bracketsLists {config : Config} {st : Statement}
    (haccounts : st.Accounts Operand.IsScalar config) (hsound : st.Sound fun _ => True)
    (quoted : Bool) : st.BracketsLists quoted := by
  have hreads := st.reads_tokens (fun _ _ => trivial) quoted hsound
  refine ⟨?_, ?_, ?_, ?_⟩
  · intro b hb items hitems
    rcases haccounts.kept b hb with hscalar | ⟨items', hitems', hsome, hall⟩
    · exact absurd hitems (hscalar items)
    · rw [hitems] at hitems'
      cases hitems'
      exact ⟨hsome, hall⟩
  · intro test param
    rw [← hreads.mem_iff, mem_operands]
  · intro front test param back hsplit
    rcases haccounts.operand hreads hsplit with ⟨value, hvalue, hsuits, _, _⟩
    refine ⟨value, (st.binding?_toPlan quoted param).trans hvalue,
      hsuits.imp_right fun hmembership => ?_⟩
    rcases st.framed_tokens quoted front test param back hsplit with
      ⟨before, after, hbefore, hafter, htokens⟩
    -- the tokens around the operand are those of its own template
    rcases hmembership.around _ htokens with ⟨hin, rfl⟩
    exact ⟨hmembership, hin.trans hbefore, hafter⟩
  · intro style v hv
    rcases mem_values (st.toPlan quoted) hv with ⟨name, value, hvalue, hv⟩
    rw [st.binding?_toPlan] at hvalue
    rcases List.lookup_eq_some_iff.1 hvalue with ⟨front, back, hsplit, _⟩
    have hmem : (name, value) ∈ st.bindings := by
      rw [hsplit]
      exact List.mem_append_right _ List.mem_cons_self
    exact (haccounts.kept (name, value) hmem).scalar hv

/-- A validated configuration names its parameters by words, so that each name is found in the text. -/
theorem Statement.Accounts.marksOperands {config : Config} {st : Statement}
    (haccounts : st.Accounts Operand.IsScalar config) (hsound : st.Sound fun _ => True)
    (hvalid : config.validate = .ok ()) (quoted : Bool) : st.MarksOperands quoted := by
  have hreads := st.reads_tokens (fun _ _ => trivial) quoted hsound
  have htext : (st.toPlan quoted).toSql.toList = textOf (st.tokens quoted) :=
    (Statement.textOf_tokens quoted st).symm
  intro style
  rcases exists_marks (st.toPlan quoted) style with ⟨first, hmarks⟩
  rw [htext] at hmarks
  refine ⟨_, hmarks, fun front test param back hsplit => ?_⟩
  rcases haccounts.operand hreads hsplit with ⟨value, hvalue, hsuits, hname, hapart⟩
  -- the marks of the operand are those of its first occurrence
  have hwrite : ((st.toPlan quoted).binding? param).map (fun value =>
      (marks style (first param) value.elements.length).toList)
        = some (marks style (first param) value.elements.length).toList := by
    rw [st.binding?_toPlan, hvalue, Option.map_some]
  refine ⟨_, hwrite, ?_, fun hother => ?_⟩
  · rw [hmarks, hsplit]
    exact substitute_operand hwrite (config.isWordChar_of_mem_paramNames hvalid hname) hapart
  · have hscalar : value.IsScalar := hsuits.resolve_right hother
    refine ⟨first param, ?_⟩
    rw [hscalar.elements, List.length_singleton, marks_one]

namespace Query

variable {s : Schema} {model : String} {query : Json} {config : Config} {plan : Plan}

theorem binds_scalar (h : query.ListsFlat) :
    query.Entries (Condition.BindsAllowed Operand.IsScalar) :=
  fun key value hentry hcalls item hitem _ hv =>
    Operand.scalar_of_ofJson? (h key value hentry hcalls item hitem) hv

/-- The lists that a query without lists inside lists binds are legal. So with positional marks,
which are found in the text under the names that a validated configuration gives, each operand is a
single mark. -/
theorem bracketsLists_of_compile (hflat : query.ListsFlat)
    (h : compile s model query config = .ok plan) :
    ∃ root conditions done, Compiles s model query config root conditions done plan ∧
      done.finish.BracketsLists config.quoteIdentifiers ∧
      (config.validate = .ok () → done.finish.MarksOperands config.quoteIdentifiers) := by
  rcases compile_eq_ok_iff.1 h with ⟨root, conditions, done, hcompiles⟩
  have hinstant : ∀ t, Operand.IsScalar (.instant t) := by
    rintro t items ⟨⟩
  have haccounts := hcompiles.accounts hinstant (binds_scalar hflat)
  have hsound := hcompiles.sound hinstant (binds_scalar hflat) (p := fun _ => True)
    (fun _ _ _ => trivial) (fun _ _ _ _ => trivial) (fun _ _ => trivial)
  exact ⟨root, conditions, done, hcompiles, haccounts.bracketsLists hsound _,
    fun hvalid => haccounts.marksOperands hsound hvalid _⟩

/-- A query with a list to be in and with several values to compare with. -/
def listed : Json :=
  .object
    [("id|=", .array [.string "a", .string "b"]),
      ("surname~", .array [.string "D%", .string "R%"])]

theorem bracketsLists_listed :
    ∃ plan, compile Schema.people "Person" listed {} = .ok plan ∧
      (plan.toPositional .dollar).sql = "SELECT DISTINCT people.* FROM people WHERE "
        ++ "people.id IN ($1, $2) AND (people.surname ILIKE $3 OR people.surname ILIKE $4)" ∧
      ∃ root conditions done, Compiles Schema.people "Person" listed {} root conditions done plan ∧
        done.finish.BracketsLists false ∧ done.finish.MarksOperands false := by
  have hsql : (compile Schema.people "Person" listed {}).toOption.map
      (fun plan => (plan.toPositional .dollar).sql) = some ("SELECT DISTINCT people.* FROM people WHERE "
        ++ "people.id IN ($1, $2) AND (people.surname ILIKE $3 OR people.surname ILIKE $4)") := by
    decide +kernel
  rcases exists_of_map_toOption hsql with ⟨plan, hplan, hsql⟩
  have hflat : listed.ListsFlat := by
    simp [listed, Json.ListsFlat, Json.entries_object, Json.entries_array, Json.entries_string,
      Condition.items]
  rcases bracketsLists_of_compile hflat hplan with
    ⟨root, conditions, done, hcompiles, hbrackets, hmarks⟩
  exact ⟨plan, hplan, hsql, root, conditions, done, hcompiles, hbrackets, hmarks rfl⟩

/-- A query with a list among the values to compare with. -/
def listInList : Json :=
  .object [("surname=", .array [.array [.string "Doe", .string "Roe"]])]

/-- Here a comparison has a list for its operand, and gets two marks. -/
theorem listInList_unbracketed :
    ∃ root conditions st, rootModel Schema.people "Person" = .ok root ∧
      Condition.ofDocument listInList root = .ok conditions ∧
      assemble root conditions {} = .ok st ∧ ¬st.BracketsLists false ∧
      (st.toPlan false).toSql
        = "SELECT DISTINCT people.* FROM people WHERE people.surname = :p1" ∧
      ((st.toPlan false).toPositional .dollar).sql
        = "SELECT DISTINCT people.* FROM people WHERE people.surname = $1, $2" := by
  have hobserved : (do
      let root ← rootModel Schema.people "Person"
      let conditions ← Condition.ofDocument listInList root
      assemble root conditions {}).toOption.map (fun st : Statement =>
        (st.tests, ((st.toPlan false).binding? "p1").map (fun v : Operand => v.elements.length),
          (st.toPlan false).toSql, ((st.toPlan false).toPositional .dollar).sql)) =
      some ([.template "%s = %s" [⟨"people", "surname"⟩] ["p1"]], some 2,
        "SELECT DISTINCT people.* FROM people WHERE people.surname = :p1",
        "SELECT DISTINCT people.* FROM people WHERE people.surname = $1, $2") := by
    decide +kernel
  rcases exists_of_map_toOption hobserved with ⟨st, hst, hobserved⟩
  simp only [Prod.mk.injEq] at hobserved
  rcases hobserved with ⟨htests, hvalue, hsql, hpositional⟩
  simp only [bind_eq_ok_iff] at hst
  rcases hst with ⟨root, hroot, conditions, hconditions, hassemble⟩
  refine ⟨root, conditions, st, hroot, hconditions, hassemble, fun hbrackets => ?_, hsql,
    hpositional⟩
  have hoperand := (hbrackets.operands (.template "%s = %s" [⟨"people", "surname"⟩] ["p1"]) "p1").2
    ⟨htests ▸ List.mem_cons_self, List.mem_cons_self⟩
  rcases List.append_of_mem hoperand with ⟨front, back, hsplit⟩
  rcases hbrackets.bracketed front _ "p1" back hsplit with ⟨value, hbound, hlegal⟩
  rw [hbound, Option.map_some, Option.some.injEq] at hvalue
  -- the value is two long, so it is no single one, and the template is not that of a membership
  rcases hlegal with hscalar | ⟨⟨template, htemplate, column, param, heq⟩, _⟩
  · rw [hscalar.elements] at hvalue
    cases hvalue
  · cases heq
    exact absurd htemplate (by decide)

end Query

end DocQuery
