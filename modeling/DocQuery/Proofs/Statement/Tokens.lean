import DocQuery.Proofs.Positional.Expand
import DocQuery.Proofs.Predicate.Evaluate
import DocQuery.Statement.Render

namespace DocQuery

/-! # Statements as tokens

The text of a statement with the placeholders of its parameters kept apart. Every placeholder
belongs to a test, and behind it no word goes on, so that it is read as the parameter that it is.

* `textOf_tokens`: the tokens of a statement have the text of the statement.
-/

/-- A part of a statement's text. -/
inductive Token where
  | char (c : Char)
  /-- The placeholder of a parameter of a test. -/
  | operand (test : Test) (param : String)

namespace Token

/-- The text of the token. -/
def text : Token → List Char
  | char c => [c]
  | operand _ param => ':' :: param.toList

/-- The text of tokens. -/
def textOf (tokens : List Token) : List Char := tokens.flatMap text

/-- A text without placeholders. -/
def plain (text : String) : List Token := text.toList.map char

@[simp] theorem textOf_nil : textOf [] = [] := rfl

@[simp] theorem textOf_append (xs ys : List Token) : textOf (xs ++ ys) = textOf xs ++ textOf ys := by
  simp [textOf]

@[simp] theorem textOf_map_char (cs : List Char) : textOf (cs.map char) = cs := by
  simp [textOf, List.flatMap_map, Token.text]

@[simp] theorem textOf_plain (text : String) : textOf (plain text) = text.toList :=
  textOf_map_char _

/-- A placeholder is a colon and a name. -/
@[simp] theorem textOf_operand (test : Test) (param : String) :
    textOf [operand test param] = ':' :: param.toList := by
  simp [textOf, Token.text]

/-- Tokens of several parts with a separator between. -/
def separated (separator : String) (parts : List (List Token)) : List Token :=
  (plain separator).intercalate parts

/-- The separator stands between the first part and the others. -/
theorem separated_cons_cons (separator : String) (part next : List Token)
    (parts : List (List Token)) : separated separator (part :: next :: parts)
      = part ++ (plain separator ++ separated separator (next :: parts)) := by
  rw [separated, List.intercalate_cons_cons, List.append_assoc]
  rfl

/-- The text of separated parts is their texts, separated. -/
theorem textOf_separated (separator : String) : ∀ parts : List (List Token),
    textOf (separated separator parts) = separator.toList.intercalate (parts.map textOf)
  | [] => rfl
  | [part] => by simp [separated]
  | part :: next :: parts => by
    rw [separated_cons_cons, textOf_append, textOf_append, textOf_plain,
      textOf_separated separator (next :: parts), List.map_cons, List.map_cons, List.map_cons,
      List.intercalate_cons_cons, List.append_assoc]

end Token

open Token

/-! ## Tokens of the parts -/

/-- The pieces of a template with the tokens of an argument between each two. -/
def Template.fillTokens : List (List Char) → List (List Token) → List Token
  | [], _ => []
  | [piece], _ => piece.map .char
  | piece :: more, [] => (piece ++ ['%', 's']).map .char ++ fillTokens more []
  | piece :: more, arg :: args => piece.map .char ++ arg ++ fillTokens more args

/-- The tokens of a test. -/
def Test.tokens (quoted : Bool) : Test → List Token
  | .text fragment => plain fragment.sql
  | .template t columns params =>
    Template.fillTokens (Template.pieces t.toList)
      (columns.map (fun c => plain (c.toSql quoted))
        ++ params.map fun param => [.operand (.template t columns params) param])

namespace Predicate

mutual

/-- The tokens of a condition, written as `render` writes it. -/
def tokens (quoted : Bool) : Predicate Test → List Token
  | leaf test => test.tokens quoted
  | node c children => separated (" " ++ c.keyword ++ " ") (childTokens quoted children)

def childTokens (quoted : Bool) : List (Predicate Test) → List (List Token)
  | [] => []
  | child :: rest =>
    if child.isEmpty then childTokens quoted rest
    else if child.isLeaf then child.tokens quoted :: childTokens quoted rest
    else (plain "(" ++ child.tokens quoted ++ plain ")") :: childTokens quoted rest

end

end Predicate

namespace Statement

/-- The text of the clauses in front of the joins. -/
def headText (quoted : Bool) (baseTable baseAlias : String) (select : List SelectItem) : String :=
  "SELECT " ++ ", ".intercalate (select.map (SelectItem.toSql quoted)) ++ " FROM "
    ++ sourceText quoted baseTable baseAlias

/-- The text of the clauses behind the WHERE clause. -/
def tailText (quoted : Bool) (order : List OrderItem) (limit offset : Option Nat) : String :=
  Plan.optionalClause "ORDER BY" (if order.isEmpty then none
      else some (", ".intercalate (order.map (OrderItem.toSql quoted))))
    ++ Plan.optionalClause "LIMIT" (limit.map toString)
    ++ Plan.optionalClause "OFFSET" (offset.map toString)

/-- The tokens of a WHERE clause, which is there only if it has tests. -/
def whereTokens (quoted : Bool) (predicate : Predicate Test) : List Token :=
  if predicate.isEmpty then [] else plain " WHERE " ++ predicate.tokens quoted

mutual

/-- The tokens of a statement. -/
def tokens (quoted : Bool) : Statement → List Token
  | ⟨_, baseTable, baseAlias, select, joins, predicate, _, order, limit, offset, _⟩ =>
    plain (headText quoted baseTable baseAlias select) ++ (joinTokens quoted joins
      ++ (whereTokens quoted predicate ++ plain (tailText quoted order limit offset)))

/-- The tokens of joins, each behind a blank. -/
def joinTokens (quoted : Bool) : List (Join Statement) → List Token
  | [] => []
  | join :: joins => plain " " ++ tokensOfJoin quoted join ++ joinTokens quoted joins

def tokensOfJoin (quoted : Bool) : Join Statement → List Token
  | .table table tableAlias left key => plain (tableJoinText quoted table tableAlias left key)
  | .derived tableAlias statement =>
    plain "JOIN LATERAL (" ++ statement.tokens quoted
      ++ plain (") AS " ++ identifier quoted tableAlias ++ " ON TRUE")
  | .derivedText tableAlias sql => plain (derivedJoinText quoted tableAlias sql)

end

end Statement

/-! ## The text of the tokens -/

/-- Filling a template with tokens is filling it with their texts. -/
theorem Template.textOf_fillTokens : ∀ (pieces : List (List Char)) (args : List (List Token)),
    textOf (fillTokens pieces args) = fill pieces (args.map textOf)
  | [], _ => rfl
  | [piece], _ => textOf_map_char piece
  | piece :: next :: more, [] => by
    have ih : textOf (fillTokens (next :: more) []) = fill (next :: more) [] :=
      textOf_fillTokens (next :: more) []
    simp only [fillTokens, fill, textOf_append, textOf_map_char, List.map_nil, ih]
  | piece :: next :: more, arg :: args => by
    have ih := textOf_fillTokens (next :: more) args
    simp only [fillTokens, fill, textOf_append, textOf_map_char, List.map_cons, ih]

/-- The tokens of a test have the text of the test. -/
theorem Test.textOf_tokens (quoted : Bool) (test : Test) :
    textOf (test.tokens quoted) = (test.toFragment quoted).sql.toList := by
  cases test with
  | text fragment => exact textOf_plain _
  | template t columns params =>
    have hargs : (columns.map (fun c => plain (c.toSql quoted))
          ++ params.map fun param => [Token.operand (.template t columns params) param]).map textOf
        = (columns.map (QualifiedColumn.toSql quoted) ++ params.map placeholder).map
          String.toList := by
      simp [placeholder, Function.comp_def]
    rw [tokens, Template.textOf_fillTokens, toFragment, Template.render, hargs,
      String.toList_ofList]

namespace Predicate

mutual

/-- The tokens of a tree have the text of the tree. -/
theorem textOf_tokens (quoted : Bool) (p : Predicate Test) :
    textOf (p.tokens quoted) = (p.map (Test.toFragment quoted)).toSql.toList := by
  cases p with
  | leaf test => exact test.textOf_tokens quoted
  | node c children =>
    rw [tokens, textOf_separated, textOf_childTokens quoted children, toSql, map, render,
      String.toList_intercalate]

/-- So do those of its children. -/
theorem textOf_childTokens (quoted : Bool) (children : List (Predicate Test)) :
    (childTokens quoted children).map textOf =
      (renderChildren Fragment.sql (mapChildren (Test.toFragment quoted) children)).map
        String.toList := by
  cases children with
  | nil => rfl
  | cons child rest =>
    have hchild : textOf (child.tokens quoted) =
        (render Fragment.sql (child.map (Test.toFragment quoted))).toList :=
      textOf_tokens quoted child
    have hrest := textOf_childTokens quoted rest
    rw [childTokens, mapChildren, renderChildren, isEmpty_map, isLeaf_map]
    split
    · exact hrest
    · split
      · simp [hchild, hrest]
      · simp [hchild, hrest]

end

end Predicate

namespace Statement

mutual

/-- The tokens of a statement spell its text. -/
theorem textOf_tokens (quoted : Bool) : ∀ statement : Statement,
    textOf (statement.tokens quoted) = (statement.toPlan quoted).toSql.toList
  | ⟨model, baseTable, baseAlias, select, joins, predicate, bindings, order, limit, offset,
      includes⟩ => by
    have hjoins := textOf_joinTokens quoted joins
    have hpredicate := predicate.textOf_tokens quoted
    rw [tokens, toPlan, whereTokens, headText, tailText]
    unfold Plan.toSql
    simp only [textOf_append, textOf_plain, hjoins, Predicate.isEmpty_map]
    split
    · simp [Plan.optionalClause]
    · simp [Plan.optionalClause, hpredicate]

/-- The tokens of joins have the text of the joins. -/
theorem textOf_joinTokens (quoted : Bool) : ∀ joins : List (Join Statement),
    textOf (joinTokens quoted joins) =
      (String.join ((joinTexts quoted joins).map (" " ++ ·))).toList
  | [] => rfl
  | join :: joins => by
    have hjoin := textOf_tokensOfJoin quoted join
    have hjoins := textOf_joinTokens quoted joins
    rw [joinTokens, textOf_append, textOf_append, hjoin, hjoins, joinTexts]
    simp [String.toList_join]

/-- So do those of each join. -/
theorem textOf_tokensOfJoin (quoted : Bool) : ∀ join : Join Statement,
    textOf (tokensOfJoin quoted join) = (joinText quoted join).toList
  | .table table tableAlias left key => textOf_plain _
  | .derived tableAlias statement => by
    have hstatement := textOf_tokens quoted statement
    rw [tokensOfJoin, textOf_append, textOf_append, hstatement, joinText]
    unfold derivedJoinText
    simp
  | .derivedText tableAlias sql => textOf_plain _

end

end Statement

end DocQuery
