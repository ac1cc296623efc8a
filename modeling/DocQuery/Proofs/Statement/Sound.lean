import DocQuery.Proofs.Statement.Operands

namespace DocQuery

open Token

/-! # Sound statements

A statement is sound if its names are spelled in a class of characters and each of its tests has as
many columns and parameters as its template has places. The tokens of a sound statement have the
parameters of its tests as operands, those in derived tables included.

* `Test.Sound.reads`: the operands of a test are its parameters.
* `reads_tokens`: the operands of a sound statement are the parameters of its tests, in the order of
  the text.
-/

/-- All characters of the text belong to the class. -/
def Spelled (p : Char → Prop) (text : String) : Prop := ∀ c ∈ text.toList, p c

/-- A text without colons and quotes. -/
def Bare (text : String) : Prop := ':' ∉ text.toList ∧ '"' ∉ text.toList

instance (text : String) : Decidable (Bare text) := inferInstanceAs (Decidable (_ ∧ _))

variable {p : Char → Prop}

namespace Spelled

variable {a b : String}

/-- Spelled texts are spelled one behind the other. -/
theorem append (ha : Spelled p a) (hb : Spelled p b) : Spelled p (a ++ b) := by
  intro c hc
  rw [String.toList_append, List.mem_append] at hc
  exact hc.elim (ha c) (hb c)

/-- Spelled parts are joined by a spelled separator to a spelled text. -/
theorem intercalate {separator : String} (hseparator : Spelled p separator) :
    ∀ {parts : List String}, (∀ part ∈ parts, Spelled p part) →
      Spelled p (separator.intercalate parts)
  | [], _ => by
    intro c hc
    simp at hc
  | [part], h => by simpa using h part List.mem_cons_self
  | part :: next :: parts, h => by
    have ih : Spelled p (separator.intercalate (next :: parts)) :=
      intercalate hseparator fun other hother => h other (List.mem_cons_of_mem _ hother)
    have hpart := (h part List.mem_cons_self).append (hseparator.append ih)
    intro c hc
    refine hpart c ?_
    simpa [String.toList_intercalate, List.intercalate_cons_cons, or_assoc] using hc

/-- The class holds all that is no colon, so a text without colons is spelled in it. -/
theorem of_not_mem (hp : ∀ c, c ≠ ':' → p c) {text : String} (h : ':' ∉ text.toList) :
    Spelled p text := by
  intro c hc
  refine hp c ?_
  rintro rfl
  exact h hc

/-- A class that lacks at most colons and quotes spells every bare text. -/
theorem of_bare (hp : ∀ c, c ≠ ':' → c ≠ '"' → p c) {text : String} (h : Bare text) :
    Spelled p text := by
  intro c hc
  refine hp c ?_ ?_
  · rintro rfl
    exact h.1 hc
  · rintro rfl
    exact h.2 hc

/-- A number is written in digits. -/
theorem toString_nat (hp : ∀ c, c ≠ ':' → c ≠ '"' → p c) (n : Nat) : Spelled p (toString n) := by
  have hdigits : ∀ c ∈ (toString n).toList, c.isDigit = true := by
    intro c hc
    rw [Nat.toString_eq_repr, Nat.toList_repr] at hc
    exact Nat.isDigit_of_mem_toDigits (by decide) (by decide) hc
  refine of_bare hp ⟨fun hcolon => ?_, fun hquote => ?_⟩
  · cases hdigits _ hcolon
  · cases hdigits _ hquote

/-- An identifier is spelled like its name, but for quotes. -/
theorem identifier (hp : ∀ c, c ≠ ':' → p c) {name : String} (h : Spelled p name) (quoted : Bool) :
    Spelled p (identifier quoted name) := by
  have hquote : p '"' := hp _ (by decide)
  unfold DocQuery.identifier
  split
  · intro c hc
    simp only [String.toList_append, String.toList_ofList, List.mem_append, List.mem_flatMap] at hc
    rcases hc with (hc | ⟨d, hd, hc⟩) | hc
    · have hc : c = '"' := by simpa using hc
      exact hc ▸ hquote
    · -- a quote inside is doubled, and all else is itself
      unfold escapeIdentifierChar at hc
      split at hc
      · have hc : c = '"' := by simpa using hc
        exact hc ▸ hquote
      · have hc : c = d := by simpa using hc
        exact hc ▸ h d hd
    · have hc : c = '"' := by simpa using hc
      exact hc ▸ hquote
  · exact h

end Spelled

/-! ## Tests -/

namespace Statement

mutual

/-- The tests of a statement: those in its derived tables, then those of its WHERE clause. -/
def tests : Statement → List Test
  | ⟨_, _, _, _, joins, predicate, _, _, _, _, _⟩ => joinTests joins ++ predicate.leaves

def joinTests : List (Join Statement) → List Test
  | [] => []
  | join :: joins => testsOfJoin join ++ joinTests joins

def testsOfJoin : Join Statement → List Test
  | .table .. => []
  | .derived _ statement => statement.tests
  | .derivedText .. => []

end

/-- The tests of joins are those of the first and those of the others. -/
theorem joinTests_append (joins joins' : List (Join Statement)) :
    joinTests (joins ++ joins') = joinTests joins ++ joinTests joins' := by
  induction joins with
  | nil => simp [joinTests]
  | cons join joins ih => simp [joinTests, ih]

end Statement

/-- The parameters of a test, with the test. -/
def Test.operands (test : Test) : List (Test × String) := test.params.map fun param => (test, param)

/-! ## Sound parts -/

def QualifiedColumn.Spelled (p : Char → Prop) (c : QualifiedColumn) : Prop :=
  DocQuery.Spelled p c.tableAlias ∧ DocQuery.Spelled p c.column

/-- Behind each place of the template a word ends. -/
def Template.spaced : List (List Char) → Bool
  | [] => true
  | [_] => true
  | _ :: next :: more =>
    (match next.head? with
      | some c => !isWordChar c
      | none => more.isEmpty)
    && spaced (next :: more)

/-- The template has as many places, each apart from what follows. -/
def Template.Takes (template : String) (places : Nat) : Prop :=
  (Template.pieces template.toList).length = places + 1 ∧
    Template.spaced (Template.pieces template.toList) = true

/-- A template with columns and parameters for all its places. -/
inductive Test.Sound (p : Char → Prop) : Test → Prop where
  | template {t : String} {columns : List QualifiedColumn} {params : List String}
      (takes : Template.Takes t (columns.length + params.length)) (spelled : Spelled p t)
      (columns_spelled : ∀ c ∈ columns, c.Spelled p) : Sound p (.template t columns params)

inductive SelectItem.Spelled (p : Char → Prop) : SelectItem → Prop where
  | rowsOf {tableAlias : String} (spelled : DocQuery.Spelled p tableAlias) :
      Spelled p (.rowsOf tableAlias)
  | column {c : QualifiedColumn} (spelled : c.Spelled p) : Spelled p (.column c)

/-- All names in the statement are spelled in the class, and its tests are sound. -/
inductive Statement.Sound (p : Char → Prop) : Statement → Prop where
  | intro {st : Statement} (table : Spelled p st.baseTable) (baseAlias : Spelled p st.baseAlias)
      (select : ∀ item ∈ st.select, item.Spelled p) (order : ∀ item ∈ st.order, item.column.Spelled p)
      (tests : ∀ t ∈ st.predicate.leaves, t.Sound p)
      (joins : ∀ join ∈ st.joins, Spelled p join.tableAlias)
      (tables : ∀ table tableAlias left key, .table table tableAlias left key ∈ st.joins →
        Spelled p table ∧ left.Spelled p ∧ Spelled p key)
      (inner : ∀ tableAlias inner, .derived tableAlias inner ∈ st.joins → Sound p inner)
      (structured : ∀ tableAlias sql, .derivedText tableAlias sql ∉ st.joins) : Sound p st

/-! ## The texts of sound parts -/

section Texts

variable (hp : ∀ c, c ≠ ':' → p c) (quoted : Bool)
include hp

/-- A column is spelled as its alias and its name are. -/
theorem QualifiedColumn.Spelled.toSql {c : QualifiedColumn} (h : c.Spelled p) :
    DocQuery.Spelled p (c.toSql quoted) :=
  ((h.1.identifier hp quoted).append (.of_not_mem hp (by decide))).append (h.2.identifier hp quoted)

/-- An entry of a select list is spelled as its names are. -/
theorem SelectItem.Spelled.toSql {item : SelectItem} (h : item.Spelled p) :
    DocQuery.Spelled p (item.toSql quoted) := by
  cases h with
  | rowsOf spelled =>
    exact ((DocQuery.Spelled.of_not_mem hp (by decide)).append (spelled.identifier hp quoted)).append
      (.of_not_mem hp (by decide))
  | column spelled => exact spelled.toSql hp quoted

/-- An entry of an order is spelled as its column is. -/
theorem OrderItem.spelled_toSql {item : OrderItem} (h : item.column.Spelled p) :
    Spelled p (item.toSql quoted) := by
  refine ((h.toSql hp quoted).append (.of_not_mem hp (by decide))).append ?_
  cases item.direction <;> exact .of_not_mem hp (by decide)

/-- A source is spelled as its table and its alias are. -/
theorem spelled_sourceText {table tableAlias : String} (htable : Spelled p table)
    (halias : Spelled p tableAlias) : Spelled p (sourceText quoted table tableAlias) := by
  unfold sourceText
  split
  · exact halias.identifier hp quoted
  · exact ((htable.identifier hp quoted).append (.of_not_mem hp (by decide))).append
      (halias.identifier hp quoted)

/-- A join is spelled as its names are. -/
theorem spelled_tableJoinText {table tableAlias key : String} {left : QualifiedColumn}
    (htable : Spelled p table) (halias : Spelled p tableAlias) (hleft : left.Spelled p)
    (hkey : Spelled p key) : Spelled p (tableJoinText quoted table tableAlias left key) := by
  have hcolumn : QualifiedColumn.Spelled p ⟨tableAlias, key⟩ := ⟨halias, hkey⟩
  exact ((((((Spelled.of_not_mem hp (by decide)).append (htable.identifier hp quoted)).append
    (.of_not_mem hp (by decide))).append (halias.identifier hp quoted)).append
    (.of_not_mem hp (by decide))).append (hleft.toSql hp quoted)).append
    (.of_not_mem hp (by decide)) |>.append (hcolumn.toSql hp quoted)

/-- A clause that may be missing is spelled as what it holds. -/
theorem spelled_optionalClause {keyword : String} (hkeyword : ':' ∉ keyword.toList)
    {text : Option String} (htext : ∀ t ∈ text, Spelled p t) :
    Spelled p (Plan.optionalClause keyword text) := by
  cases text with
  | none =>
    intro c hc
    cases hc
  | some text =>
    exact (((Spelled.of_not_mem hp (by decide)).append (.of_not_mem hp hkeyword)).append
      (.of_not_mem hp (by decide))).append (htext text rfl)

end Texts

/-! ## The operands of sound parts -/

theorem reads_plain {text : String} (h : Spelled p text) : Reads p (plain text) [] := reads_chars h

theorem plain_append (a b : String) : plain (a ++ b) = plain a ++ plain b := by
  simp [plain]

/-- A text that begins with a blank or a bracket is apart from what stands in front. -/
theorem apart_plain {text : String} (h : ∀ c, text.toList.head? = some c → isWordChar c = false) :
    Apart (plain text) := by
  intro token htoken
  rw [plain, List.head?_map, Option.map_eq_some_iff] at htoken
  rcases htoken with ⟨c, hc, rfl⟩
  exact ⟨c, rfl, h c hc⟩

namespace Template

/-- The pieces of a template are made of its characters. -/
theorem mem_of_mem_pieces {cs piece : List Char} {c : Char} (hpiece : piece ∈ pieces cs)
    (hc : c ∈ piece) : c ∈ cs := by
  -- By the recursion of `pieces`: a place ends a piece, any other character extends the first.
  fun_induction pieces cs generalizing piece with
  | case1 => simp_all
  | case2 rest ih =>
    rcases List.mem_cons.1 hpiece with rfl | hpiece
    · cases hc
    · exact List.mem_cons_of_mem _ (List.mem_cons_of_mem _ (ih hpiece hc))
  | case3 d rest _ hnil ih =>
    have heq : piece = [d] := by simpa using hpiece
    rw [heq, List.mem_singleton] at hc
    rw [hc]
    exact List.mem_cons_self
  | case4 d rest _ first more hpieces ih =>
    rcases List.mem_cons.1 hpiece with rfl | hpiece
    · rcases List.mem_cons.1 hc with rfl | hc
      · exact List.mem_cons_self
      · exact List.mem_cons_of_mem _ (ih (by rw [hpieces]; exact List.mem_cons_self) hc)
    · exact List.mem_cons_of_mem _
        (ih (by rw [hpieces]; exact List.mem_cons_of_mem _ hpiece) hc)

/-- Behind a place, the filled rest of a spaced template is apart. -/
theorem apart_fillTokens {piece next : List Char} {more : List (List Char)}
    (h : spaced (piece :: next :: more) = true) (args : List (List Token)) :
    Apart (fillTokens (next :: more) args) ∧ spaced (next :: more) = true := by
  rw [spaced, Bool.and_eq_true] at h
  refine ⟨?_, h.2⟩
  cases next with
  | nil =>
    -- an empty piece is the last one
    have hmore : more = [] := by simpa using h.1
    rw [hmore]
    exact apart_nil
  | cons c next =>
    have hc : isWordChar c = false := by simpa using h.1
    cases more with
    | nil => exact apart_char hc _
    | cons after more =>
      cases args with
      | nil => exact apart_char hc _
      | cons arg args => exact apart_char hc _

/-- A spaced template has the operands of its arguments. -/
theorem reads_fillTokens : ∀ (pieces : List (List Char))
    (args : List (List Token × List (Test × String))), pieces.length = args.length + 1 →
      spaced pieces = true → (∀ piece ∈ pieces, ∀ c ∈ piece, p c) →
      (∀ arg ∈ args, Reads p arg.1 arg.2) →
      Reads p (fillTokens pieces (args.map Prod.fst)) (args.flatMap Prod.snd)
  | [piece], [], _, _, hpieces, _ => reads_chars (hpieces piece List.mem_cons_self)
  | piece :: next :: more, arg :: args, hlength, hspaced, hpieces, hargs => by
    rcases apart_fillTokens hspaced (args.map Prod.fst) with ⟨hapart, hspaced⟩
    have ih := reads_fillTokens (next :: more) args (by simpa using hlength) hspaced
      (fun piece hpiece => hpieces piece (List.mem_cons_of_mem _ hpiece))
      (fun arg harg => hargs arg (List.mem_cons_of_mem _ harg))
    have harg := (hargs arg List.mem_cons_self).append ih hapart
    have hpiece := harg.chars (hpieces piece List.mem_cons_self)
    rw [← List.append_assoc] at hpiece
    exact hpiece

end Template

section Reading

variable (hp : ∀ c, c ≠ ':' → p c) (quoted : Bool)
include hp

/-- A sound test has its parameters as operands, each once. -/
theorem Test.Sound.reads {test : Test} (h : test.Sound p) :
    Reads p (test.tokens quoted) test.operands := by
  cases h with
  | @template t columns params takes spelled columns_spelled =>
    -- the columns and the parameters fill the places in turn; only the parameters are operands
    have hargs := Template.reads_fillTokens (p := p) (Template.pieces t.toList)
      (columns.map (fun c => (plain (c.toSql quoted), []))
        ++ params.map fun param => ([.operand (.template t columns params) param],
          [(.template t columns params, param)]))
      (by simpa using takes.1) takes.2
      (fun piece hpiece c hc => spelled c (Template.mem_of_mem_pieces hpiece hc)) ?_
    · have hcolumns : columns.flatMap (fun _ => ([] : List (Test × String))) = [] := by simp
      have hparams : params.flatMap (fun param => [(Test.template t columns params, param)])
          = params.map fun param => (Test.template t columns params, param) :=
        List.map_eq_flatMap.symm
      rw [tokens, operands, Test.params]
      simpa [List.flatMap_map, Function.comp_def, hcolumns, hparams] using hargs
    · -- an argument is the text of a column or a lone operand
      intro arg harg
      rcases List.mem_append.1 harg with harg | harg
      · rcases List.mem_map.1 harg with ⟨c, hc, rfl⟩
        exact reads_plain ((columns_spelled c hc).toSql hp quoted)
      · rcases List.mem_map.1 harg with ⟨param, _, rfl⟩
        exact .operand apart_nil .nil

omit hp in
/-- A part comes before others, with a separator that is apart. -/
theorem Token.Reads.separated_cons {separator : String} (hspelled : Spelled p separator)
    (hapart : ∀ more, Apart (plain separator ++ more)) {part : List Token} {parts : List (List Token)}
    {operands operands' : List (Test × String)} (hpart : Reads p part operands)
    (hparts : Reads p (separated separator parts) operands') :
    Reads p (separated separator (part :: parts)) (operands ++ operands') := by
  cases parts with
  | nil =>
    cases hparts
    simpa [separated] using hpart
  | cons next parts =>
    rw [separated_cons_cons]
    exact hpart.append (hparts.chars hspelled) (hapart _)

namespace Predicate

mutual

/-- A tree of sound tests has the parameters of its tests as operands, in order. -/
theorem reads_tokens (q : Predicate Test) (h : ∀ t ∈ q.leaves, t.Sound p) :
    Reads p (q.tokens quoted) (q.leaves.flatMap Test.operands) := by
  cases q with
  | leaf test =>
    rw [tokens, leaves, List.flatMap_singleton]
    exact (h test List.mem_cons_self).reads hp quoted
  | node c children =>
    rw [tokens, leaves]
    exact reads_childTokens c children h

/-- So do its children, with the connective between them. -/
theorem reads_childTokens (c : Connective) (children : List (Predicate Test))
    (h : ∀ t ∈ childLeaves children, t.Sound p) :
    Reads p (separated (" " ++ c.keyword ++ " ") (childTokens quoted children))
      ((childLeaves children).flatMap Test.operands) := by
  cases children with
  | nil => exact .nil
  | cons child rest =>
    have hseparator : Spelled p (" " ++ c.keyword ++ " ") := by
      cases c <;> exact .of_not_mem hp (by decide)
    have hapart : ∀ more, Apart (plain (" " ++ c.keyword ++ " ") ++ more) := by
      intro more
      rw [plain_append, plain_append]
      exact apart_char (by decide +kernel) _
    rw [childLeaves, List.flatMap_append]
    have hchild := reads_tokens child fun t ht => h t (List.mem_append_left _ ht)
    have hrest := reads_childTokens c rest fun t ht => h t (List.mem_append_right _ ht)
    rw [childTokens]
    split
    · -- an empty child has no tests
      rename_i hempty
      rw [child.leaves_of_isEmpty hempty]
      exact hrest
    · split
      · exact hchild.separated_cons hseparator hapart hrest
      · refine Reads.separated_cons hseparator hapart ?_ hrest
        have hclosed := hchild.append (reads_plain (.of_not_mem hp (by decide : ':' ∉ ")".toList)))
          (apart_char (by decide +kernel) _)
        rw [List.append_nil] at hclosed
        rw [List.append_assoc]
        exact hclosed.chars (Spelled.of_not_mem hp (by decide : ':' ∉ "(".toList))

end

end Predicate

namespace Statement

/-- The head of a statement is spelled as its names are. -/
theorem spelled_headText {baseTable baseAlias : String} {select : List SelectItem}
    (htable : Spelled p baseTable) (hbase : Spelled p baseAlias)
    (hselect : ∀ item ∈ select, item.Spelled p) :
    Spelled p (headText quoted baseTable baseAlias select) := by
  refine (((Spelled.of_not_mem hp (by decide)).append (.intercalate ?_ ?_)).append
    (.of_not_mem hp (by decide))).append (spelled_sourceText hp quoted htable hbase)
  · exact .of_not_mem hp (by decide)
  · intro text htext
    rcases List.mem_map.1 htext with ⟨item, hitem, rfl⟩
    exact (hselect item hitem).toSql hp quoted

/-- The tail of a statement is spelled as its names are; what it limits by are digits. -/
theorem spelled_tailText {order : List OrderItem} (horder : ∀ item ∈ order, item.column.Spelled p)
    (limit offset : Option Nat) : Spelled p (tailText quoted order limit offset) := by
  have hnumber : ∀ (n : Option Nat), ∀ t ∈ n.map toString, Spelled p t := by
    intro n t ht
    rcases Option.map_eq_some_iff.1 ht with ⟨i, _, rfl⟩
    exact .toString_nat (fun c hc _ => hp c hc) i
  refine ((spelled_optionalClause hp (by decide) fun text htext => ?_).append
    (spelled_optionalClause hp (by decide) (hnumber limit))).append
    (spelled_optionalClause hp (by decide) (hnumber offset))
  split at htext
  · cases htext
  · cases htext
    refine .intercalate (.of_not_mem hp (by decide)) fun text htext => ?_
    rcases List.mem_map.1 htext with ⟨item, hitem, rfl⟩
    exact OrderItem.spelled_toSql hp quoted (horder item hitem)

omit hp in
/-- The clauses behind the WHERE clause begin with a blank, if there are any. -/
theorem apart_tailText (order : List OrderItem) (limit offset : Option Nat) :
    Apart (plain (tailText quoted order limit offset)) := by
  have hclause : ∀ (keyword : String) (text : Option String),
      Apart (plain (Plan.optionalClause keyword text)) := by
    intro keyword text
    cases text with
    | none => exact apart_nil
    | some text =>
      refine apart_plain fun c hc => ?_
      have hblank : c = ' ' := by simpa [Plan.optionalClause] using hc.symm
      rw [hblank]
      decide +kernel
  rw [tailText, plain_append, plain_append]
  exact ((hclause _ _).append (hclause _ _)).append (hclause _ _)

/-- A WHERE clause has the parameters of its tests as operands, and no name runs on behind it. -/
theorem reads_whereTokens {predicate : Predicate Test} (h : ∀ t ∈ predicate.leaves, t.Sound p) :
    Reads p (whereTokens quoted predicate) (predicate.leaves.flatMap Test.operands) ∧
      Apart (whereTokens quoted predicate) := by
  unfold whereTokens
  split
  · rename_i hempty
    rw [predicate.leaves_of_isEmpty hempty]
    exact ⟨.nil, apart_nil⟩
  · have hkeyword : Spelled p " WHERE " := .of_not_mem hp (by decide)
    exact ⟨(predicate.reads_tokens hp quoted h).chars hkeyword, apart_char (by decide +kernel) _⟩

mutual

/-- The operands of a sound statement are the parameters of its tests. -/
theorem reads_tokens : ∀ (statement : Statement), statement.Sound p →
    Reads p (statement.tokens quoted) (statement.tests.flatMap Test.operands)
  | ⟨model, baseTable, baseAlias, select, joins, predicate, bindings, order, limit, offset,
      includes⟩, .intro table hbase hselect horder htests haliases htables hinner hstructured => by
    have hjoins := reads_joinTokens joins haliases htables hinner hstructured
    rcases reads_whereTokens hp quoted htests with ⟨hwhere, hwhereApart⟩
    have htail := reads_plain (spelled_tailText hp quoted horder limit offset)
    have htailApart := apart_tailText quoted order limit offset
    have hbody := hjoins.append (hwhere.append htail htailApart) (hwhereApart.append htailApart)
    rw [List.append_nil] at hbody
    rw [tests, List.flatMap_append]
    exact hbody.chars (spelled_headText hp quoted table hbase hselect)

/-- The operands of joins are those of the first and those of the others. -/
theorem reads_joinTokens : ∀ joins : List (Join Statement),
    (∀ join ∈ joins, Spelled p join.tableAlias) →
      (∀ table tableAlias left key, .table table tableAlias left key ∈ joins →
        Spelled p table ∧ left.Spelled p ∧ Spelled p key) →
      (∀ tableAlias inner, .derived tableAlias inner ∈ joins → Sound p inner) →
      (∀ tableAlias sql, .derivedText tableAlias sql ∉ joins) →
      Reads p (joinTokens quoted joins) ((joinTests joins).flatMap Test.operands)
  | [], _, _, _, _ => .nil
  | join :: joins, haliases, htables, hinner, hstructured => by
    have hjoins := reads_joinTokens joins
      (fun join hjoin => haliases join (List.mem_cons_of_mem _ hjoin))
      (fun table tableAlias left key hjoin =>
        htables table tableAlias left key (List.mem_cons_of_mem _ hjoin))
      (fun tableAlias inner hjoin => hinner tableAlias inner (List.mem_cons_of_mem _ hjoin))
      (fun tableAlias sql hjoin => hstructured tableAlias sql (List.mem_cons_of_mem _ hjoin))
    have hjoin := reads_tokensOfJoin join (haliases join List.mem_cons_self)
      (fun table tableAlias left key heq =>
        htables table tableAlias left key (heq ▸ List.mem_cons_self))
      (fun tableAlias inner heq => hinner tableAlias inner (heq ▸ List.mem_cons_self))
      (fun tableAlias sql heq => hstructured tableAlias sql (heq ▸ List.mem_cons_self))
    have hblank : ∀ c ∈ " ".toList, p c := Spelled.of_not_mem hp (by decide)
    -- a blank or nothing stands behind a join, so no name runs on
    have hapart : Apart (joinTokens quoted joins) := by
      cases joins with
      | nil => exact apart_nil
      | cons next joins => exact apart_char (by decide +kernel) _
    rw [joinTests, List.flatMap_append, joinTokens, List.append_assoc]
    exact (hjoin.append hjoins hapart).chars hblank

/-- Only a derived table has operands: those of its statement. -/
theorem reads_tokensOfJoin : ∀ join : Join Statement, Spelled p join.tableAlias →
    (∀ table tableAlias left key, .table table tableAlias left key = join →
      Spelled p table ∧ left.Spelled p ∧ Spelled p key) →
    (∀ tableAlias inner, .derived tableAlias inner = join → Sound p inner) →
    (∀ tableAlias sql, .derivedText tableAlias sql ≠ join) →
    Reads p (tokensOfJoin quoted join) ((testsOfJoin join).flatMap Test.operands)
  | .table table tableAlias left key, halias, htables, _, _ => by
    rcases htables table tableAlias left key rfl with ⟨htable, hleft, hkey⟩
    exact reads_plain (spelled_tableJoinText hp quoted htable halias hleft hkey)
  | .derived tableAlias statement, halias, _, hinner, _ => by
    -- the induction goes into the statement, which is written between two spelled texts
    have hstatement := reads_tokens statement (hinner tableAlias statement rfl)
    have hhead : Spelled p "JOIN LATERAL (" := .of_not_mem hp (by decide)
    have htail : Spelled p (") AS " ++ identifier quoted tableAlias ++ " ON TRUE") :=
      ((Spelled.of_not_mem hp (by decide)).append (Spelled.identifier hp halias quoted)).append
        (.of_not_mem hp (by decide))
    have htailApart : Apart (plain (") AS " ++ identifier quoted tableAlias ++ " ON TRUE")) := by
      rw [plain_append, plain_append]
      exact apart_char (by decide +kernel) _
    have hbody := hstatement.append (reads_plain htail) htailApart
    rw [List.append_nil] at hbody
    rw [testsOfJoin, tokensOfJoin, List.append_assoc]
    exact hbody.chars hhead
  | .derivedText tableAlias sql, _, _, _, hstructured => absurd rfl (hstructured tableAlias sql)

end

end Statement

end Reading

end DocQuery
