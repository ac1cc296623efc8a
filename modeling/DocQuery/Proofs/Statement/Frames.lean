import Mathlib.Data.List.Basic
import DocQuery.Proofs.Condition.Fills
import DocQuery.Proofs.Statement.Tokens

namespace DocQuery

open Token

/-! # Operands in their tests

Wherever an operand stands in a statement, the tokens of its test stand around it. So what is in
front of it and behind it can be read off the test's template.

* `framed_tokens`: every operand of a statement stands in the tokens of its test.
* `Test.IsMembership.around`: so the parameter of a test against a list stands in brackets.
-/

namespace Token

/-- Every operand stands among the tokens of its test. -/
def Framed (quoted : Bool) (tokens : List Token) : Prop :=
  ∀ front test param back, tokens = front ++ .operand test param :: back →
    ∃ before after, before <:+ front ∧ after <+: back ∧
      test.tokens quoted = before ++ .operand test param :: after

variable {quoted : Bool} {xs ys : List Token}

/-- Without operands there is nothing to frame. -/
theorem framed_chars (cs : List Char) : Framed quoted (cs.map .char) := by
  intro front test param back h
  have hmem : .operand test param ∈ cs.map Token.char := by
    rw [h]
    exact List.mem_append_right _ List.mem_cons_self
  rcases List.mem_map.1 hmem with ⟨c, _, hc⟩
  cases hc

theorem framed_plain (text : String) : Framed quoted (plain text) := framed_chars _

theorem framed_nil : Framed quoted [] := framed_chars []

/-- Framed tokens are framed one behind the other, as their operands have their tests around them
already. -/
theorem Framed.append (hxs : Framed quoted xs) (hys : Framed quoted ys) :
    Framed quoted (xs ++ ys) := by
  intro front test param back h
  -- the operand is in one of the two parts, and the other one only adds to what stands around
  rcases List.append_eq_append_iff.1 h with ⟨more, rfl, hback⟩ | ⟨more, rfl, hback⟩
  · rcases hys more test param back hback with ⟨before, after, hbefore, hafter, htokens⟩
    exact ⟨before, after, hbefore.trans (List.suffix_append _ _), hafter, htokens⟩
  · cases more with
    | nil =>
      rcases hys [] test param back hback.symm with ⟨before, after, hbefore, hafter, htokens⟩
      exact ⟨before, after, hbefore.trans List.nil_suffix, hafter, htokens⟩
    | cons token more =>
      rw [List.cons_append, List.cons.injEq] at hback
      rcases hback with ⟨rfl, rfl⟩
      rcases hxs front test param more rfl with ⟨before, after, hbefore, hafter, htokens⟩
      exact ⟨before, after, hbefore, hafter.trans (List.prefix_append _ _), htokens⟩

/-- The separator has no operands. -/
theorem framed_separated (separator : String) : ∀ {parts : List (List Token)},
    (∀ part ∈ parts, Framed quoted part) → Framed quoted (separated separator parts)
  | [], _ => framed_nil
  | [part], h => by
    have hpart := h part List.mem_cons_self
    simpa [separated] using hpart
  | part :: next :: parts, h => by
    have ih : Framed quoted (separated separator (next :: parts)) :=
      framed_separated separator fun other hother => h other (List.mem_cons_of_mem _ hother)
    rw [separated_cons_cons]
    exact (h part List.mem_cons_self).append ((framed_plain separator).append ih)

end Token

/-! ## Statements -/

variable (quoted : Bool)

/-- A token of a filled template is a character or comes from an argument. -/
theorem Template.mem_fillTokens {token : Token} : ∀ {pieces : List (List Char)}
    {args : List (List Token)}, token ∈ fillTokens pieces args →
      (∃ c, token = .char c) ∨ ∃ arg ∈ args, token ∈ arg
  | [], _, h => by
    cases h
  | [piece], _, h => by
    rcases List.mem_map.1 h with ⟨c, _, rfl⟩
    exact .inl ⟨c, rfl⟩
  | piece :: next :: more, [], h => by
    rcases List.mem_append.1 h with h | h
    · rcases List.mem_map.1 h with ⟨c, _, rfl⟩
      exact .inl ⟨c, rfl⟩
    · exact mem_fillTokens h
  -- from the piece in front, from the argument, or from what is filled behind it
  | piece :: next :: more, arg :: args, h => by
    simp only [fillTokens, List.append_assoc, List.mem_append] at h
    rcases h with h | h | h
    · rcases List.mem_map.1 h with ⟨c, _, rfl⟩
      exact .inl ⟨c, rfl⟩
    · exact .inr ⟨arg, List.mem_cons_self, h⟩
    · refine (mem_fillTokens h).imp_right ?_
      rintro ⟨other, hother, hmem⟩
      exact ⟨other, List.mem_cons_of_mem _ hother, hmem⟩

/-- The operands of a test belong to it. -/
theorem Test.eq_of_operand_mem {test other : Test} {param : String}
    (h : .operand other param ∈ test.tokens quoted) : other = test := by
  cases test with
  | text fragment =>
    rcases List.mem_map.1 h with ⟨c, _, hc⟩
    cases hc
  | template t columns params =>
    rw [tokens] at h
    rcases Template.mem_fillTokens h with ⟨c, hc⟩ | ⟨arg, harg, hmem⟩
    · cases hc
    · rcases List.mem_append.1 harg with harg | harg
      · rcases List.mem_map.1 harg with ⟨column, _, rfl⟩
        rcases List.mem_map.1 hmem with ⟨c, _, hc⟩
        cases hc
      · rcases List.mem_map.1 harg with ⟨name, _, rfl⟩
        rw [List.mem_singleton] at hmem
        cases hmem
        rfl

/-- An operand of a test has the test around it. -/
theorem Test.framed_tokens (test : Test) : Framed quoted (test.tokens quoted) := by
  intro front other param back h
  have hmem : .operand other param ∈ test.tokens quoted := by
    rw [h]
    exact List.mem_append_right _ List.mem_cons_self
  cases test.eq_of_operand_mem quoted hmem
  exact ⟨front, back, List.suffix_rfl, List.prefix_rfl, h⟩

namespace Predicate

mutual

/-- So has an operand of a tree of tests. -/
theorem framed_tokens (q : Predicate Test) : Framed quoted (q.tokens quoted) := by
  cases q with
  | leaf test => exact test.framed_tokens quoted
  | node c children => exact framed_separated _ (framed_childTokens children)

/-- And of each of its children. -/
theorem framed_childTokens (children : List (Predicate Test)) :
    ∀ part ∈ childTokens quoted children, Framed quoted part := by
  cases children with
  | nil => exact List.forall_mem_nil _
  | cons child rest =>
    have hchild := framed_tokens child
    have hrest := framed_childTokens rest
    rw [childTokens]
    split
    · exact hrest
    · split
      · exact List.forall_mem_cons.2 ⟨hchild, hrest⟩
      · refine List.forall_mem_cons.2 ⟨?_, hrest⟩
        exact ((framed_plain "(").append hchild).append (framed_plain ")")

end

end Predicate

namespace Statement

/-- And of a clause. -/
theorem framed_whereTokens (predicate : Predicate Test) :
    Framed quoted (whereTokens quoted predicate) := by
  unfold whereTokens
  split
  · exact framed_nil
  · exact (framed_plain _).append (predicate.framed_tokens quoted)

mutual

/-- In a statement, too, every operand stands among the tokens of its test. -/
theorem framed_tokens : ∀ statement : Statement, Framed quoted (statement.tokens quoted)
  | ⟨_, _, _, _, joins, predicate, _, _, _, _, _⟩ =>
    (framed_plain _).append ((framed_joinTokens joins).append
      ((framed_whereTokens quoted predicate).append (framed_plain _)))

/-- And of joins, where only derived tables have operands. -/
theorem framed_joinTokens : ∀ joins : List (Join Statement),
    Framed quoted (joinTokens quoted joins)
  | [] => framed_nil
  | join :: joins =>
    ((framed_plain " ").append (framed_tokensOfJoin join)).append (framed_joinTokens joins)

/-- In a derived table it has the test of the inner statement around it. -/
theorem framed_tokensOfJoin : ∀ join : Join Statement, Framed quoted (tokensOfJoin quoted join)
  | .table .. => framed_plain _
  | .derived _ statement =>
    ((framed_plain _).append (framed_tokens statement)).append (framed_plain _)
  | .derivedText .. => framed_plain _

end

end Statement

/-! ## Tests against a list -/

/-- The parameter of a test against a list stands in brackets behind IN. -/
theorem Test.IsMembership.around {test : Test} (h : test.IsMembership) {param : String}
    {before after : List Token} (htokens : test.tokens quoted = before ++ .operand test param :: after) :
    plain " IN (" <:+ before ∧ after = plain ")" := by
  rcases h with ⟨template, htemplate, column, name, rfl⟩
  have hfilled : ∀ middle : String,
      Template.pieces template.toList = [[], middle.toList, ")".toList] →
      " IN (".toList <:+ middle.toList → plain " IN (" <:+ before ∧ after = plain ")" := by
    intro middle hpieces hmiddle
    have hsplit : (plain (column.toSql quoted) ++ plain middle) ++
        .operand (.template template [column] [name]) name :: plain ")"
          = before ++ .operand (.template template [column] [name]) param :: after := by
      rw [← htokens, Test.tokens, hpieces]
      simp [Template.fillTokens, plain]
    have hplain : ∀ text : String, .operand (.template template [column] [name]) param ∉ plain text := by
      intro text hmem
      rcases List.mem_map.1 hmem with ⟨c, _, hc⟩
      cases hc
    -- the operand is the only one, so that both sides are cut at the same place
    have hfront : .operand (.template template [column] [name]) param
        ∉ plain (column.toSql quoted) ++ plain middle := by
      rw [List.mem_append, not_or]
      exact ⟨hplain _, hplain _⟩
    rcases (List.append_cons_inj_of_notMem hfront (hplain _)).1 hsplit with ⟨hbefore, _, hafter⟩
    refine ⟨?_, hafter.symm⟩
    rw [← hbefore]
    exact (hmiddle.map Token.char).trans (List.suffix_append _ _)
  simp only [Template.memberships, List.mem_cons, List.not_mem_nil, or_false] at htemplate
  rcases htemplate with rfl | rfl
  · exact hfilled " IN (" (by decide +kernel) (by decide +kernel)
  · exact hfilled " NOT IN (" (by decide +kernel) (by decide +kernel)

end DocQuery
