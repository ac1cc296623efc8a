import DocQuery.Proofs.Draft.Fresh
import DocQuery.Proofs.Statement.Sound

namespace DocQuery

open Token

/-! # Quoted statements

With its identifiers in quotes a statement reads as it does with bare identifiers, but for the
quotes: taking them out of the one text gives the other, as long as no name has a quote of its own.
Whether two entries of a select list are written alike does not depend on quoting either, as columns
have no points in their names and only the rows of the base table are selected as a whole.

* `Unquotes.textOf_eq`: taking the quotes out of the one text gives the other.
* `SelectItem.Legible.toSql_inj`: entries of a select list are written alike only if they are the
  same, quoted or bare.
* `unquotes_tokens`: a sound statement without quotes in its names reads the same but for the
  quotes.
-/

namespace Token

/-- The token is a quote. -/
def isQuote : Token → Bool
  | char c => c = '"'
  | operand .. => false

/-- Without quotes the first tokens are the second. -/
def Unquotes (xs ys : List Token) : Prop := xs.filter (fun token => !token.isQuote) = ys

/-- Quotes are taken out part by part. -/
theorem Unquotes.append {xs xs' ys ys' : List Token} (h : Unquotes xs ys) (h' : Unquotes xs' ys') :
    Unquotes (xs ++ xs') (ys ++ ys') := by
  unfold Unquotes at h h' ⊢
  rw [List.filter_append, h, h']

/-- A text without quotes stays as it is. -/
theorem unquotes_chars {cs : List Char} (h : '"' ∉ cs) : Unquotes (cs.map char) (cs.map char) := by
  refine List.filter_eq_self.2 fun token htoken => ?_
  rcases List.mem_map.1 htoken with ⟨c, hc, rfl⟩
  have hne : c ≠ '"' := by
    rintro rfl
    exact h hc
  simp [isQuote, hne]

theorem unquotes_plain {text : String} (h : '"' ∉ text.toList) : Unquotes (plain text) (plain text) :=
  unquotes_chars h

/-- As `Unquotes.append`, for plain text. -/
theorem Unquotes.plain_append {a a' b b' : String} (h : Unquotes (plain a) (plain b))
    (h' : Unquotes (plain a') (plain b')) : Unquotes (plain (a ++ a')) (plain (b ++ b')) := by
  rw [DocQuery.plain_append, DocQuery.plain_append]
  exact h.append h'

/-- Quotes are taken out part by part, if the separator has none. -/
theorem unquotes_separated {separator : String} (hseparator : '"' ∉ separator.toList)
    {parts parts' : List (List Token)} (h : List.Forall₂ Unquotes parts parts') :
    Unquotes (separated separator parts) (separated separator parts') := by
  induction h with
  | nil => rfl
  | @cons part part' rest rest' hpart hrest ih =>
    cases hrest with
    | nil => simpa [separated] using hpart
    | cons hnext hmore =>
      rw [separated_cons_cons, separated_cons_cons]
      exact hpart.append ((unquotes_plain hseparator).append ih)

/-- The text without quotes, as the parameters have none in their names. -/
theorem Unquotes.textOf_eq {xs ys : List Token} (h : Unquotes xs ys)
    (hparams : ∀ test param, .operand test param ∈ xs → '"' ∉ param.toList) :
    (textOf xs).filter (· ≠ '"') = textOf ys := by
  rw [← h]
  clear h
  induction xs with
  | nil => rfl
  | cons token xs ih =>
    have ih := ih fun test param hmem => hparams test param (List.mem_cons_of_mem _ hmem)
    have hcons : textOf (token :: xs) = token.text ++ textOf xs := List.flatMap_cons
    rw [hcons, List.filter_append, ih]
    cases token with
    -- a quote is dropped on both sides, any other character is kept on both
    | char c =>
      by_cases hc : c = '"'
      · simp [hc, isQuote, Token.text]
      · simp [hc, isQuote, Token.text, textOf]
    -- the name of a parameter has no quotes to drop
    | operand test param =>
      have hparam := hparams test param List.mem_cons_self
      have htext : (operand test param).text.filter (· ≠ '"') = (operand test param).text := by
        refine List.filter_eq_self.2 fun c hc => ?_
        have hne : c ≠ '"' := by
          rintro rfl
          rcases List.mem_cons.1 hc with hcolon | hc
          · cases hcolon
          · exact hparam hc
        simpa using hne
      rw [htext]
      simp [isQuote, textOf]

end Token

/-! ## Names -/

/-- The name has no quotes. -/
abbrev Quoteless (name : String) : Prop := Spelled (· ≠ '"') name

theorem Quoteless.notMem {name : String} (h : Quoteless name) : '"' ∉ name.toList :=
  fun hquote => h _ hquote rfl

/-- A quoted identifier has two more quotes than a bare one, if its name has none. -/
theorem Quoteless.unquotes_identifier {name : String} (h : Quoteless name) (quoted : Bool) :
    Unquotes (plain (identifier quoted name)) (plain (identifier false name)) := by
  have hquote : Unquotes (plain "\"") (plain "") := rfl
  have hescaped : name.toList.flatMap escapeIdentifierChar = name.toList := by
    have hsame : ∀ c ∈ name.toList, escapeIdentifierChar c = [c] := fun c hc => if_neg (h c hc)
    rw [List.flatMap_congr hsame, List.flatMap_singleton']
  cases quoted with
  | false => exact unquotes_plain h.notMem
  | true =>
    have hbody := (hquote.plain_append (unquotes_plain h.notMem)).plain_append hquote
    simpa [identifier, hescaped] using hbody

namespace QualifiedColumn

/-- A column is its alias and its name. -/
theorem Spelled.unquotes {c : QualifiedColumn} (h : c.Spelled (· ≠ '"')) (quoted : Bool) :
    Unquotes (plain (c.toSql quoted)) (plain (c.toSql false)) :=
  ((Quoteless.unquotes_identifier h.1 quoted).plain_append
    (unquotes_plain (by decide))).plain_append (Quoteless.unquotes_identifier h.2 quoted)

end QualifiedColumn

/-- An entry of a select list is a column or all rows of a table. -/
theorem SelectItem.Spelled.unquotes {item : SelectItem} (h : item.Spelled (· ≠ '"'))
    (quoted : Bool) : Unquotes (plain (item.toSql quoted)) (plain (item.toSql false)) := by
  cases h with
  | rowsOf spelled =>
    exact ((unquotes_plain (by decide)).plain_append
      (Quoteless.unquotes_identifier spelled quoted)).plain_append (unquotes_plain (by decide))
  | column spelled => exact spelled.unquotes quoted

theorem OrderItem.unquotes {item : OrderItem} (h : item.column.Spelled (· ≠ '"')) (quoted : Bool) :
    Unquotes (plain (item.toSql quoted)) (plain (item.toSql false)) := by
  refine ((h.unquotes quoted).plain_append (unquotes_plain (by decide))).plain_append
    (unquotes_plain ?_)
  cases item.direction with
  | ascending => decide
  | descending => decide

/-- Plain parts are joined to plain text. -/
theorem plain_intercalate (separator : String) : ∀ parts : List String,
    plain (separator.intercalate parts) = separated separator (parts.map plain)
  | [] => by simp [plain, separated]
  | [part] => by simp [separated]
  | part :: next :: parts => by
    have ih := plain_intercalate separator (next :: parts)
    rw [List.map_cons] at ih
    rw [List.map_cons, List.map_cons, separated_cons_cons, ← ih]
    simp [plain, String.toList_intercalate]

/-- Texts are joined by a text without quotes. -/
theorem unquotes_intercalate {α : Type} {separator : String} (hseparator : '"' ∉ separator.toList)
    {items : List α} {text text' : α → String}
    (h : ∀ item ∈ items, Unquotes (plain (text item)) (plain (text' item))) :
    Unquotes (plain (separator.intercalate (items.map text)))
      (plain (separator.intercalate (items.map text'))) := by
  rw [plain_intercalate, plain_intercalate, List.map_map, List.map_map]
  refine unquotes_separated hseparator ?_
  rw [List.forall₂_map_left_iff, List.forall₂_map_right_iff]
  exact List.forall₂_same.2 h

/-- A source names its table and its alias. -/
theorem unquotes_sourceText {table tableAlias : String} (htable : Quoteless table)
    (halias : Quoteless tableAlias) (quoted : Bool) :
    Unquotes (plain (sourceText quoted table tableAlias))
      (plain (sourceText false table tableAlias)) := by
  unfold sourceText
  split
  · exact halias.unquotes_identifier quoted
  · exact ((htable.unquotes_identifier quoted).plain_append
      (unquotes_plain (by decide))).plain_append (halias.unquotes_identifier quoted)

/-- A join names a table, its alias and the two columns it compares. -/
theorem unquotes_tableJoinText {table tableAlias key : String} {left : QualifiedColumn}
    (htable : Quoteless table) (halias : Quoteless tableAlias) (hleft : left.Spelled (· ≠ '"'))
    (hkey : Quoteless key) (quoted : Bool) :
    Unquotes (plain (tableJoinText quoted table tableAlias left key))
      (plain (tableJoinText false table tableAlias left key)) := by
  have hright : QualifiedColumn.Spelled (· ≠ '"') ⟨tableAlias, key⟩ := ⟨halias, hkey⟩
  exact (((((((unquotes_plain (by decide)).plain_append
    (htable.unquotes_identifier quoted)).plain_append (unquotes_plain (by decide))).plain_append
    (halias.unquotes_identifier quoted)).plain_append (unquotes_plain (by decide))).plain_append
    (hleft.unquotes quoted)).plain_append (unquotes_plain (by decide))).plain_append
    (hright.unquotes quoted)

/-! ## Entries of a select list -/

/-- An escaped name ends at the first quote that is not doubled. -/
theorem escaped_inj {cs ds rest rest' : List Char} (hrest : rest.head? ≠ some '"')
    (hrest' : rest'.head? ≠ some '"')
    (h : cs.flatMap escapeIdentifierChar ++ '"' :: rest =
      ds.flatMap escapeIdentifierChar ++ '"' :: rest') : cs = ds ∧ rest = rest' := by
  have hescape : ∀ c, escapeIdentifierChar c = c :: if c = '"' then ['"'] else [] := by
    intro c
    unfold escapeIdentifierChar
    split
    · rename_i hc
      rw [hc]
    · rfl
  -- a name that goes on where the other has ended goes on with two quotes
  have hends : ∀ {d : Char} {ds rest rest' : List Char}, rest.head? ≠ some '"' →
      '"' :: rest ≠ (d :: ds).flatMap escapeIdentifierChar ++ '"' :: rest' := by
    intro d ds rest rest' hrest h
    rw [List.flatMap_cons, hescape, List.cons_append, List.cons_append, List.cons.injEq] at h
    rcases h with ⟨rfl, h⟩
    exact hrest (by rw [h, if_pos rfl]; rfl)
  induction cs generalizing ds with
  | nil =>
    cases ds with
    | nil => exact ⟨rfl, by simpa using h⟩
    | cons d ds => exact absurd h (hends hrest)
  | cons c cs ih =>
    cases ds with
    | nil => exact absurd h.symm (hends hrest')
    | cons d ds =>
      rw [List.flatMap_cons, List.flatMap_cons, List.append_assoc, List.append_assoc] at h
      have hfirst : c = d := by
        rw [hescape, hescape, List.cons_append, List.cons_append, List.cons.injEq] at h
        exact h.1
      rw [hfirst] at h ⊢
      rcases ih (List.append_cancel_left h) with ⟨rfl, hsame⟩
      exact ⟨rfl, hsame⟩

/-- Two quoted names are the same if texts that go on with something else than a quote are. -/
theorem identifier_inj {a b : String} {rest rest' : List Char} (hrest : rest.head? ≠ some '"')
    (hrest' : rest'.head? ≠ some '"')
    (h : (identifier true a).toList ++ rest = (identifier true b).toList ++ rest') :
    a = b ∧ rest = rest' := by
  have htoList : ∀ name : String, (identifier true name).toList =
      '"' :: (name.toList.flatMap escapeIdentifierChar ++ ['"']) := by
    intro name
    simp [identifier]
  rw [htoList, htoList, List.cons_append, List.cons_append, List.append_assoc, List.append_assoc,
    List.cons.injEq] at h
  rcases escaped_inj hrest hrest' h.2 with ⟨hnames, hsame⟩
  exact ⟨String.toList_inj.1 hnames, hsame⟩

/-- An entry of the select list over the base table: its rows, or a column that is not written like
these. -/
inductive SelectItem.Legible (base : String) : SelectItem → Prop where
  | rowsOf : Legible base (.rowsOf base)
  | column {c : QualifiedColumn} (undotted : '.' ∉ c.column.toList)
      (apart : c.column = "*" → c.tableAlias ≠ "DISTINCT " ++ base) : Legible base (.column c)

/-- A column whose name has no points is written in its own way. -/
theorem QualifiedColumn.toSql_inj {c d : QualifiedColumn} (hc : '.' ∉ c.column.toList)
    (hd : '.' ∉ d.column.toList) (quoted : Bool) : c.toSql quoted = d.toSql quoted ↔ c = d := by
  refine ⟨fun h => ?_, fun h => by rw [h]⟩
  have htext := congrArg String.toList h
  simp only [toSql, String.toList_append, List.append_assoc] at htext
  cases quoted with
  -- bare: the point parts alias and name, as the name has none
  | false =>
    have hname : c.column.toList = d.column.toList := tail_eq_of_append_eq hc hd htext
    rw [show c.column = d.column from String.toList_inj.1 hname] at htext
    have halias : c.tableAlias = d.tableAlias :=
      String.toList_inj.1 (List.append_cancel_right htext)
    cases c
    cases d
    simp only at halias hname
    rw [halias, String.toList_inj.1 hname]
  -- in quotes: each identifier ends at its closing quote, whatever it holds
  | true =>
    rcases identifier_inj (by simp) (by simp) htext with ⟨halias, hname⟩
    have hname := List.append_cancel_left hname
    rw [← List.append_nil (identifier true c.column).toList,
      ← List.append_nil (identifier true d.column).toList] at hname
    rcases identifier_inj (by simp) (by simp) hname with ⟨hname, _⟩
    cases c
    cases d
    simp only at halias hname
    rw [halias, hname]

/-- A column is not written like the rows of the base table. -/
theorem QualifiedColumn.toSql_ne_rowsOf {base : String} {c : QualifiedColumn}
    (hc : '.' ∉ c.column.toList) (hapart : c.column = "*" → c.tableAlias ≠ "DISTINCT " ++ base)
    (quoted : Bool) : c.toSql quoted ≠ (SelectItem.rowsOf base).toSql quoted := by
  intro h
  have htext := congrArg String.toList h
  simp only [toSql, SelectItem.toSql, String.toList_append, List.append_assoc] at htext
  cases quoted with
  | true => simp [identifier] at htext
  | false =>
    have hrows : c.tableAlias.toList ++ '.' :: c.column.toList =
        ("DISTINCT " ++ base).toList ++ '.' :: ['*'] := by
      simpa [identifier] using htext
    have hname : c.column.toList = ['*'] := tail_eq_of_append_eq hc (by decide) hrows
    rw [hname] at hrows
    have halias := String.toList_inj.1 (List.append_cancel_right hrows)
    exact hapart (String.toList_inj.1 hname) halias

/-- Entries over one base table are written alike only if they are the same, quoted or not. -/
theorem SelectItem.Legible.toSql_inj {base : String} {item other : SelectItem}
    (h : item.Legible base) (h' : other.Legible base) (quoted : Bool) :
    item.toSql quoted = other.toSql quoted ↔ item = other := by
  cases h with
  | rowsOf =>
    cases h' with
    | rowsOf => exact iff_of_true rfl rfl
    | column undotted apart =>
      exact iff_of_false (QualifiedColumn.toSql_ne_rowsOf undotted apart quoted).symm (by simp)
  | column undotted apart =>
    cases h' with
    | rowsOf => exact iff_of_false (QualifiedColumn.toSql_ne_rowsOf undotted apart quoted) (by simp)
    | column undotted' apart' =>
      rw [SelectItem.column.injEq]
      exact QualifiedColumn.toSql_inj undotted undotted' quoted

/-! ## Tests -/

namespace Template

/-- The pieces of a template and what its places are filled with lose their quotes one by one. -/
theorem unquotes_fillTokens : ∀ (pieces : List (List Char)) {args args' : List (List Token)},
    (∀ piece ∈ pieces, '"' ∉ piece) → List.Forall₂ Unquotes args args' →
      Unquotes (fillTokens pieces args) (fillTokens pieces args')
  | [], _, _, _, _ => rfl
  | [piece], _, _, hpieces, _ => unquotes_chars (hpieces piece List.mem_cons_self)
  | piece :: next :: more, _, _, hpieces, .nil => by
    have hplace : '"' ∉ piece ++ ['%', 's'] := by
      rw [List.mem_append, not_or]
      exact ⟨hpieces piece List.mem_cons_self, by decide⟩
    exact (unquotes_chars hplace).append (unquotes_fillTokens (next :: more)
      (fun piece hpiece => hpieces piece (List.mem_cons_of_mem _ hpiece)) .nil)
  | piece :: next :: more, _, _, hpieces, .cons harg hargs => by
    have hrest := unquotes_fillTokens (next :: more)
      (fun piece hpiece => hpieces piece (List.mem_cons_of_mem _ hpiece)) hargs
    exact ((unquotes_chars (hpieces piece List.mem_cons_self)).append harg).append hrest

end Template

/-- A test fills its template with columns and parameters. -/
theorem Test.Sound.unquotes {test : Test} (h : test.Sound (· ≠ '"')) (quoted : Bool) :
    Unquotes (test.tokens quoted) (test.tokens false) := by
  cases h with
  | @template t columns params takes spelled columns_spelled =>
    refine Template.unquotes_fillTokens _ (fun piece hpiece hquote => ?_) (List.rel_append ?_ ?_)
    · exact spelled _ (Template.mem_of_mem_pieces hpiece hquote) rfl
    · rw [List.forall₂_map_left_iff, List.forall₂_map_right_iff]
      exact List.forall₂_same.2 fun c hc => (columns_spelled c hc).unquotes quoted
    · rw [List.forall₂_map_left_iff, List.forall₂_map_right_iff]
      exact List.forall₂_same.2 fun param _ => rfl

namespace Predicate

mutual

/-- A tree of tests is written as its tests are. -/
theorem unquotes_tokens (quoted : Bool) (q : Predicate Test)
    (h : ∀ t ∈ q.leaves, t.Sound (· ≠ '"')) : Unquotes (q.tokens quoted) (q.tokens false) := by
  cases q with
  | leaf test => exact (h test List.mem_cons_self).unquotes quoted
  | node c children =>
    have hkeyword : '"' ∉ (" " ++ c.keyword ++ " ").toList := by
      cases c with
      | and => decide
      | or => decide
    exact unquotes_separated hkeyword (unquotes_childTokens quoted children h)

/-- So are its children, one by one. -/
theorem unquotes_childTokens (quoted : Bool) (children : List (Predicate Test))
    (h : ∀ t ∈ childLeaves children, t.Sound (· ≠ '"')) :
    List.Forall₂ Unquotes (childTokens quoted children) (childTokens false children) := by
  cases children with
  | nil => exact .nil
  | cons child rest =>
    have hchild := unquotes_tokens quoted child fun t ht => h t (List.mem_append_left _ ht)
    have hrest := unquotes_childTokens quoted rest fun t ht => h t (List.mem_append_right _ ht)
    rw [childTokens, childTokens]
    split
    · exact hrest
    · split
      · exact .cons hchild hrest
      · exact .cons (((unquotes_plain (by decide)).append hchild).append
          (unquotes_plain (by decide))) hrest

end

end Predicate

/-! ## Statements -/

namespace Statement

/-- The head of a statement has names and what is selected. -/
theorem unquotes_headText (quoted : Bool) {baseTable baseAlias : String} {select : List SelectItem}
    (htable : Quoteless baseTable) (hbase : Quoteless baseAlias)
    (hselect : ∀ item ∈ select, item.Spelled (· ≠ '"')) :
    Unquotes (plain (headText quoted baseTable baseAlias select))
      (plain (headText false baseTable baseAlias select)) :=
  (((unquotes_plain (by decide)).plain_append (unquotes_intercalate (by decide)
    fun item hitem => (hselect item hitem).unquotes quoted)).plain_append
    (unquotes_plain (by decide))).plain_append (unquotes_sourceText htable hbase quoted)

/-- The tail of a statement has the columns of its order; a limit is digits. -/
theorem unquotes_tailText (quoted : Bool) {order : List OrderItem}
    (horder : ∀ item ∈ order, item.column.Spelled (· ≠ '"')) (limit offset : Option Nat) :
    Unquotes (plain (tailText quoted order limit offset))
      (plain (tailText false order limit offset)) := by
  have hnumber : ∀ {keyword : String} (n : Option Nat), '"' ∉ keyword.toList →
      Unquotes (plain (Plan.optionalClause keyword (n.map toString)))
        (plain (Plan.optionalClause keyword (n.map toString))) := by
    intro keyword n hkeyword
    cases n with
    | none => rfl
    | some n =>
      have hdigits : Quoteless (toString n) := .toString_nat (fun _ _ hc => hc) n
      exact (((unquotes_plain (by decide)).plain_append (unquotes_plain hkeyword)).plain_append
        (unquotes_plain (by decide))).plain_append (unquotes_plain hdigits.notMem)
  refine (Unquotes.plain_append ?_ (hnumber limit (by decide))).plain_append
    (hnumber offset (by decide))
  cases order with
  | nil => rfl
  | cons item order =>
    have hkeyword : Unquotes (plain (" " ++ "ORDER BY" ++ " ")) (plain (" " ++ "ORDER BY" ++ " ")) :=
      unquotes_plain (by decide)
    exact hkeyword.plain_append (unquotes_intercalate (by decide)
      fun item hitem => item.unquotes (horder item hitem) quoted)

mutual

/-- A sound statement without the quotes around its identifiers. -/
theorem unquotes_tokens (quoted : Bool) : ∀ (statement : Statement), statement.Sound (· ≠ '"') →
    Unquotes (statement.tokens quoted) (statement.tokens false)
  | ⟨model, baseTable, baseAlias, select, joins, predicate, bindings, order, limit, offset,
      includes⟩, .intro table hbase hselect horder htests haliases htables hinner hstructured => by
    have hjoins := unquotes_joinTokens quoted joins haliases htables hinner hstructured
    have hwhere : Unquotes (whereTokens quoted predicate) (whereTokens false predicate) := by
      unfold whereTokens
      split
      · rfl
      · exact (unquotes_plain (by decide)).append (predicate.unquotes_tokens quoted htests)
    exact (unquotes_headText quoted table hbase hselect).append
      (hjoins.append (hwhere.append (unquotes_tailText quoted horder limit offset)))

/-- Joins are written one after the other. -/
theorem unquotes_joinTokens (quoted : Bool) : ∀ joins : List (Join Statement),
    (∀ join ∈ joins, Quoteless join.tableAlias) →
      (∀ table tableAlias left key, .table table tableAlias left key ∈ joins →
        Quoteless table ∧ left.Spelled (· ≠ '"') ∧ Quoteless key) →
      (∀ tableAlias inner, .derived tableAlias inner ∈ joins → Sound (· ≠ '"') inner) →
      (∀ tableAlias sql, .derivedText tableAlias sql ∉ joins) →
      Unquotes (joinTokens quoted joins) (joinTokens false joins)
  | [], _, _, _, _ => rfl
  | join :: joins, haliases, htables, hinner, hstructured => by
    have hjoins := unquotes_joinTokens quoted joins
      (fun join hjoin => haliases join (List.mem_cons_of_mem _ hjoin))
      (fun table tableAlias left key hjoin =>
        htables table tableAlias left key (List.mem_cons_of_mem _ hjoin))
      (fun tableAlias inner hjoin => hinner tableAlias inner (List.mem_cons_of_mem _ hjoin))
      (fun tableAlias sql hjoin => hstructured tableAlias sql (List.mem_cons_of_mem _ hjoin))
    have hjoin := unquotes_tokensOfJoin quoted join (haliases join List.mem_cons_self)
      (fun table tableAlias left key heq =>
        htables table tableAlias left key (heq ▸ List.mem_cons_self))
      (fun tableAlias inner heq => hinner tableAlias inner (heq ▸ List.mem_cons_self))
      (fun tableAlias sql heq => hstructured tableAlias sql (heq ▸ List.mem_cons_self))
    exact ((unquotes_plain (by decide)).append hjoin).append hjoins

/-- A join is a table with its alias, or a statement in parentheses. -/
theorem unquotes_tokensOfJoin (quoted : Bool) : ∀ join : Join Statement, Quoteless join.tableAlias →
    (∀ table tableAlias left key, .table table tableAlias left key = join →
      Quoteless table ∧ left.Spelled (· ≠ '"') ∧ Quoteless key) →
    (∀ tableAlias inner, .derived tableAlias inner = join → Sound (· ≠ '"') inner) →
    (∀ tableAlias sql, .derivedText tableAlias sql ≠ join) →
    Unquotes (tokensOfJoin quoted join) (tokensOfJoin false join)
  | .table table tableAlias left key, halias, htables, _, _ => by
    rcases htables table tableAlias left key rfl with ⟨htable, hleft, hkey⟩
    exact unquotes_tableJoinText htable halias hleft hkey quoted
  | .derived tableAlias statement, halias, _, hinner, _ => by
    have hstatement := unquotes_tokens quoted statement (hinner tableAlias statement rfl)
    have hname := Quoteless.unquotes_identifier halias quoted
    exact ((unquotes_plain (by decide)).append hstatement).append
      (((unquotes_plain (by decide)).plain_append hname).plain_append (unquotes_plain (by decide)))
  | .derivedText tableAlias sql, _, _, _, hstructured => absurd rfl (hstructured tableAlias sql)

end

end Statement

end DocQuery
