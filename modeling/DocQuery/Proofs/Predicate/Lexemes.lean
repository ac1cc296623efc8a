import Mathlib.Data.List.Forall2
import DocQuery.Proofs.Predicate.Leaves

namespace DocQuery

/-! # Lexemes of a condition

A condition is read as words, connectives and parentheses. Blanks and parentheses end a word, and
the words AND and OR are the connectives. The text of a tree whose tests are words has the lexemes
that the tree is spelled with: its tests with the connective between each two, and parentheses
around the children that are no tests.

* `reads_render`: the text of a tree is read as its spelling.
* `lexemes_render`: so these are the lexemes of the text.
-/

/-- What a condition is made of. -/
inductive Lexeme where
  | opening
  | closing
  | connective (c : Connective)
  | word (text : String)
deriving DecidableEq, Repr

/-- The character ends a word. -/
def isMark (c : Char) : Bool := c == ' ' || c == '(' || c == ')'

/-- A text that is read as one test. -/
structure IsWord (text : String) : Prop where
  nonempty : text ≠ ""
  plain : ∀ c ∈ text.toList, isMark c = false
  free : ∀ c : Connective, text ≠ c.keyword

namespace Lexeme

/-- The lexeme of the characters between two marks, if there are any. -/
def ofRun (run : List Char) : List Lexeme :=
  if run.isEmpty then []
  else if run = Connective.and.keyword.toList then [connective .and]
  else if run = Connective.or.keyword.toList then [connective .or]
  else [word (String.ofList run)]

/-- The lexemes of a text of which `run` has been read since the last mark. -/
def scan (run : List Char) : List Char → List Lexeme
  | [] => ofRun run
  | ' ' :: rest => ofRun run ++ scan [] rest
  | '(' :: rest => ofRun run ++ opening :: scan [] rest
  | ')' :: rest => ofRun run ++ closing :: scan [] rest
  | c :: rest => scan (run ++ [c]) rest

end Lexeme

/-- The lexemes of a text. -/
def lexemes (text : String) : List Lexeme := Lexeme.scan [] text.toList

namespace Lexeme

variable {run rest : List Char}

theorem ofRun_keyword (c : Connective) : ofRun c.keyword.toList = [connective c] := by
  cases c <;> decide

theorem ofRun_word {text : String} (h : IsWord text) : ofRun text.toList = [word text] := by
  have hnonempty : ¬text.toList.isEmpty = true := by
    simpa using h.nonempty
  have hfree : ∀ c : Connective, text.toList ≠ c.keyword.toList := fun c hsame =>
    h.free c (String.toList_inj.1 hsame)
  rw [ofRun, if_neg hnonempty, if_neg (hfree .and), if_neg (hfree .or), String.ofList_toList]

/-- Characters that are no marks are read into the run. -/
theorem scan_append (more : List Char) (hmore : ∀ c ∈ more, isMark c = false) :
    scan run (more ++ rest) = scan (run ++ more) rest := by
  induction more generalizing run with
  | nil => rw [List.nil_append, List.append_nil]
  | cons c more ih =>
    have hc := hmore c List.mem_cons_self
    simp only [isMark, Bool.or_eq_false_iff, beq_eq_false_iff_ne] at hc
    rw [List.cons_append, scan, ih fun d hd => hmore d (List.mem_cons_of_mem _ hd), List.append_assoc,
      List.singleton_append]
    · exact hc.1.1
    · exact hc.1.2
    · exact hc.2

/-- A run ends where the text ends or a mark stands. -/
theorem scan_of_mark (hrest : ∀ c, rest.head? = some c → isMark c = true) :
    scan run rest = ofRun run ++ scan [] rest := by
  cases rest with
  | nil => simp [scan, ofRun]
  | cons c rest =>
    have hc := hrest c rfl
    simp only [isMark, Bool.or_eq_true, beq_iff_eq] at hc
    rcases hc with (rfl | rfl) | rfl <;> simp [scan, ofRun]

/-- The text is read as the lexemes wherever no word can go on behind it. -/
def Reads (text : List Char) (read : List Lexeme) : Prop :=
  ∀ rest : List Char, (∀ c, rest.head? = some c → isMark c = true) →
    scan [] (text ++ rest) = read ++ scan [] rest

theorem reads_run (hrun : ∀ c ∈ run, isMark c = false) : Reads run (ofRun run) := by
  intro rest hrest
  rw [scan_append run hrun, List.nil_append, scan_of_mark hrest]

theorem reads_word {text : String} (h : IsWord text) : Reads text.toList [word text] := by
  have hrun := reads_run h.plain
  rwa [ofRun_word h] at hrun

theorem reads_group {text : List Char} {read : List Lexeme} (h : Reads text read) :
    Reads ('(' :: text ++ [')']) (opening :: read ++ [closing]) := by
  intro rest hrest
  have htext := h (')' :: rest) (by simp [isMark])
  rw [List.append_assoc, List.cons_append, scan, List.singleton_append, htext, scan]
  simp [ofRun]

/-- A connective is read between two texts. -/
theorem reads_connective {left right : List Char} {readLeft readRight : List Lexeme} (c : Connective)
    (hleft : Reads left readLeft) (hright : Reads right readRight) :
    Reads (left ++ ' ' :: (c.keyword.toList ++ ' ' :: right))
      (readLeft ++ connective c :: readRight) := by
  intro rest hrest
  have hkeyword : ∀ d ∈ c.keyword.toList, isMark d = false := by
    cases c <;> simp [Connective.keyword, isMark]
  -- the blanks around the keyword end the words beside it
  have hmark : ∀ text : List Char, ∀ d, (' ' :: text).head? = some d → isMark d = true := by
    simp [isMark]
  rw [List.append_assoc, List.cons_append, hleft _ (hmark _), List.append_assoc, List.cons_append, scan,
    reads_run hkeyword _ (hmark _), scan, hright rest hrest, ofRun_keyword]
  simp [ofRun]

theorem reads_intercalate (c : Connective) {texts : List (List Char)} {reads : List (List Lexeme)}
    (h : List.Forall₂ Reads texts reads) :
    Reads ((' ' :: c.keyword.toList ++ [' ']).intercalate texts) ([connective c].intercalate reads) := by
  induction h with
  | nil => exact fun _ _ => rfl
  | @cons text read texts reads hfirst hrest ih =>
    cases hrest with
    | nil => simpa using hfirst
    | cons hsecond hmore =>
      rw [List.intercalate_cons_cons, List.intercalate_cons_cons]
      simpa using reads_connective c hfirst ih

end Lexeme

namespace Predicate

open Lexeme

mutual

/-- The lexemes that a tree of words is spelled with. -/
def spelling : Predicate String → List Lexeme
  | leaf text => [word text]
  | node c children => [connective c].intercalate (childSpellings children)

def childSpellings : List (Predicate String) → List (List Lexeme)
  | [] => []
  | child :: rest =>
    if child.isEmpty then childSpellings rest
    else if child.isLeaf then child.spelling :: childSpellings rest
    else (opening :: child.spelling ++ [closing]) :: childSpellings rest

end

theorem toList_separator (c : Connective) :
    (" " ++ c.keyword ++ " ").toList = ' ' :: c.keyword.toList ++ [' '] := by
  cases c <;> decide

mutual

/-- The text of a tree of words is read as the lexemes it is spelled with. -/
theorem reads_render (p : Predicate String) (h : ∀ w ∈ p.leaves, IsWord w) :
    Reads (p.render id).toList p.spelling := by
  cases p with
  | leaf text => exact reads_word (h text (by simp [leaves]))
  | node c children =>
    rw [render, spelling, String.toList_intercalate, toList_separator]
    exact reads_intercalate c (reads_renderChildren children h)

theorem reads_renderChildren (children : List (Predicate String))
    (h : ∀ w ∈ childLeaves children, IsWord w) :
    List.Forall₂ Reads ((renderChildren id children).map String.toList) (childSpellings children) := by
  cases children with
  | nil => exact .nil
  | cons child rest =>
    rw [childLeaves] at h
    have hchild := reads_render child fun w hw => h w (List.mem_append_left _ hw)
    have hrest := reads_renderChildren rest fun w hw => h w (List.mem_append_right _ hw)
    -- an empty child is left out, a test stands by itself, and a node between brackets
    rw [renderChildren, childSpellings]
    split
    · exact hrest
    · split
      · exact .cons hchild hrest
      · refine .cons ?_ hrest
        have hgroup := reads_group hchild
        simpa using hgroup

end

/-- The lexemes of the text of a tree of words. -/
theorem lexemes_render (p : Predicate String) (h : ∀ w ∈ p.leaves, IsWord w) :
    lexemes (p.render id) = p.spelling := by
  have hread := reads_render p h [] (by simp)
  simpa [lexemes, scan, ofRun] using hread

end Predicate

end DocQuery
