import DocQuery.Proofs.Parameters.Account

namespace DocQuery

/-! # The text mentions what is bound

The parameters of a plan are numbered on from one in the order of their bindings. Where neither the
schema nor the stem of aliases brings in a colon of its own, the names in the text are those of the
parameters, the text of embedded sub-queries included.

* `mentionedIn_iff_bound`: the names in the text are those of the bound parameters.
-/

open Draft Token

variable {s : Schema}

namespace Query

variable {model : String} {query : Json} {config : Config} {plan : Plan}

/-- The bindings of a plan are the parameters from the first to the last, and these are the names
that its text mentions. -/
theorem mentionedIn_iff_bound (hvalid : config.validate = .ok ())
    (h : compile s model query config = .ok plan) :
    plan.bindings.map Prod.fst = config.paramNames plan.bindings.length ∧
      ((∀ name ∈ s.identifiers, ':' ∉ name.toList) → ':' ∉ config.aliasStem.toList →
        ∀ name, MentionedIn name plan.toSql.toList ↔
          name ∈ config.paramNames plan.bindings.length) := by
  rcases compile_eq_ok_iff.1 h with ⟨root, conditions, done, hcompiles⟩
  have haccounts := hcompiles.accounts (fun _ => trivial) (binds_any query)
  have hbindings : plan.bindings = done.finish.bindings := by rw [hcompiles.plan_eq]; rfl
  rw [hbindings]
  refine ⟨haccounts.names, fun hidentifiers hstem name => ?_⟩
  have hspelled : ∀ {text : String}, ':' ∉ text.toList → Spelled (· ≠ ':') text :=
    Spelled.of_not_mem fun _ hc => hc
  have hsound := hcompiles.sound (fun _ => trivial) (binds_any query) (p := (· ≠ ':'))
    (fun _ hc _ => hc) (fun name hname => hspelled (hidentifiers name hname)) (hspelled hstem)
  have hreads := done.finish.reads_tokens (fun _ hc => hc) config.quoteIdentifiers hsound
  -- the operands are the parameters of tests, so all of them are words
  have hword : ∀ o ∈ done.finish.tests.flatMap Test.operands, ∀ c ∈ o.2.toList,
      isWordChar c = true := by
    intro o ho
    exact config.isWordChar_of_mem_paramNames hvalid (haccounts.mem_iff.1 ⟨o.1, ho⟩)
  have htext : plan.toSql.toList = textOf (done.finish.tokens config.quoteIdentifiers) := by
    rw [hcompiles.plan_eq, Statement.textOf_tokens]
  rw [htext, hreads.mentionedIn_iff hword]
  exact haccounts.mem_iff

theorem mentionedIn_manyWays :
    ∃ plan, compile Schema.people "Person" manyWays {} = .ok plan ∧
      plan.bindings.map Prod.fst = ["p1", "p2", "p3", "p4"] ∧
        ∀ name, MentionedIn name plan.toSql.toList ↔ name ∈ ["p1", "p2", "p3", "p4"] := by
  have hcount : (compile Schema.people "Person" manyWays {}).toOption.map
      (fun plan => plan.bindings.length) = some 4 := by decide +kernel
  rcases exists_of_map_toOption hcount with ⟨plan, hplan, hlength⟩
  have hvalid : ({} : Config).validate = .ok () := rfl
  rcases mentionedIn_iff_bound hvalid hplan with ⟨hnames, hmentions⟩
  have hfour : ({} : Config).paramNames plan.bindings.length = ["p1", "p2", "p3", "p4"] := by
    rw [hlength]
    decide +kernel
  rw [hfour] at hnames hmentions
  exact ⟨plan, hplan, hnames, hmentions (by decide +kernel) (by decide +kernel)⟩

end Query

end DocQuery
