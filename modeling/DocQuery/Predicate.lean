import DocQuery.Text.Blank

/-!
# Predicates

A predicate is a tree of tests joined by AND and OR. The tests are left open: conditions build trees
of structured tests, a plan holds trees of SQL fragments. A combinator without children says
nothing: it has no value, and `normalize` removes it along with every other node that does not
matter.
-/

namespace DocQuery

/-- How the children of a node are joined. -/
inductive Connective where
  | and
  | or
deriving DecidableEq, Repr

namespace Connective

def keyword : Connective → String
  | and => "AND"
  | or => "OR"

/-- The truth value of two joined values. -/
def apply : Connective → Bool → Bool → Bool
  | and, a, b => a && b
  | or, a, b => a || b

/-- The same where a value may be absent; what is absent is neutral. -/
def join (c : Connective) : Option Bool → Option Bool → Option Bool
  | none, b => b
  | a, none => a
  | some a, some b => some (c.apply a b)

@[simp] theorem join_none_left (c : Connective) (b : Option Bool) : c.join none b = b := rfl

@[simp] theorem join_none_right (c : Connective) (a : Option Bool) : c.join a none = a := by
  cases a <;> rfl

theorem join_assoc (c : Connective) (x y z : Option Bool) :
    c.join (c.join x y) z = c.join x (c.join y z) := by
  cases x <;> cases y <;> cases z <;> cases c <;> simp [join, apply, Bool.and_assoc, Bool.or_assoc]

end Connective

/-- A tree of tests. -/
inductive Predicate (α : Type) where
  | leaf (test : α)
  | node (connective : Connective) (children : List (Predicate α))
deriving Repr

namespace Predicate

variable {α β : Type}

/-- The conjunction of the children. -/
def all (children : List (Predicate α)) : Predicate α := node .and children

/-- The disjunction of the children. -/
def any (children : List (Predicate α)) : Predicate α := node .or children

instance : Inhabited (Predicate α) := ⟨all []⟩

/-- How the children are joined; a test has none. -/
def connective? : Predicate α → Option Connective
  | leaf _ => none
  | node c _ => some c

def children : Predicate α → List (Predicate α)
  | leaf _ => []
  | node _ children => children

/-- A combinator without children. -/
def isEmpty : Predicate α → Bool
  | leaf _ => false
  | node _ children => children.isEmpty

def isLeaf : Predicate α → Bool
  | leaf _ => true
  | node .. => false

/-- Adds a child to a combinator; a test is first put under an AND. -/
def push (p child : Predicate α) : Predicate α :=
  match p with
  | node c children => node c (children ++ [child])
  | leaf test => all [leaf test, child]

/-! ## Meaning -/

mutual

/-- The value of the tree when `truth` decides the tests; a tree without tests has none. -/
def evaluate (truth : α → Bool) : Predicate α → Option Bool
  | leaf test => some (truth test)
  | node c children => evaluateChildren truth c children

/-- The joined value of several trees. -/
def evaluateChildren (truth : α → Bool) (c : Connective) : List (Predicate α) → Option Bool
  | [] => none
  | child :: rest => c.join (child.evaluate truth) (evaluateChildren truth c rest)

end

mutual

/-- The tests from left to right. -/
def leaves : Predicate α → List α
  | leaf test => [test]
  | node _ children => childLeaves children

def childLeaves : List (Predicate α) → List α
  | [] => []
  | child :: rest => child.leaves ++ childLeaves rest

end

mutual

/-- The tree with every test replaced. -/
def map (f : α → β) : Predicate α → Predicate β
  | leaf test => leaf (f test)
  | node c children => node c (mapChildren f children)

def mapChildren (f : α → β) : List (Predicate α) → List (Predicate β)
  | [] => []
  | child :: rest => child.map f :: mapChildren f rest

end

/-! ## Normal form -/

/-- What a normalized child adds to a node: nothing if it is empty, its own children if it has the
node's connective, else itself. -/
def splice (c : Connective) : Predicate α → List (Predicate α)
  | leaf test => [leaf test]
  | node d children =>
    if children.isEmpty then []
    else if d = c then children
    else [node d children]

/-- A node of the given children, or the only child. -/
def collapse (c : Connective) : List (Predicate α) → Predicate α
  | [child] => child
  | children => node c children

mutual

/-- The flat tree of the same meaning. -/
def normalize : Predicate α → Predicate α
  | leaf test => leaf test
  | node c children => collapse c (normalizeChildren c children)

def normalizeChildren (c : Connective) : List (Predicate α) → List (Predicate α)
  | [] => []
  | child :: rest => splice c child.normalize ++ normalizeChildren c rest

end

/-! ## Text -/

mutual

/-- The tree as a condition: empty children are left out, other combinators put in parentheses. -/
def render (text : α → String) : Predicate α → String
  | leaf test => text test
  | node c children => (" " ++ c.keyword ++ " ").intercalate (renderChildren text children)

def renderChildren (text : α → String) : List (Predicate α) → List String
  | [] => []
  | child :: rest =>
    if child.isEmpty then renderChildren text rest
    else if child.isLeaf then child.render text :: renderChildren text rest
    else ("(" ++ child.render text ++ ")") :: renderChildren text rest

end

mutual

/-- The tree as lines, children below their connective and one step deeper. -/
def outlineAt (text : α → String) (depth : Nat) : Predicate α → List String
  | leaf test => [indentation depth ++ text test]
  | node c children =>
    (indentation depth ++ c.keyword) :: outlineChildren text (depth + 1) children

def outlineChildren (text : α → String) (depth : Nat) : List (Predicate α) → List String
  | [] => []
  | child :: rest => outlineAt text depth child ++ outlineChildren text depth rest

end

/-- The tree as lines. -/
def outline (text : α → String) (p : Predicate α) : List String := outlineAt text 0 p

end Predicate

/-- A piece of SQL and the names of the parameters in it. -/
structure Fragment where
  sql : String
  params : List String := []
deriving DecidableEq, Repr, Inhabited

namespace Predicate

/-- The condition of a tree of fragments. -/
def toSql (p : Predicate Fragment) : String := p.render Fragment.sql

/-- The names of the parameters from left to right. -/
def params (p : Predicate Fragment) : List String := p.leaves.flatMap Fragment.params

/-- The outline of a tree of fragments, each line ended. -/
def pretty (p : Predicate Fragment) : String :=
  String.join ((p.outline Fragment.sql).map (· ++ "\n"))

end Predicate

end DocQuery
