import DocQuery.Proofs.Predicate.Leaves
import DocQuery.Proofs.Statement.Tokens

namespace DocQuery

open Token

/-! # Operands of statements

Operands stand apart from what follows them. So their names are what a scanner of the text reads,
and a substitution of names replaces them one by one.

* `Token.Reads.mentionedIn_iff`: the names that a text mentions are those of its operands.
-/

namespace Token

/-- Behind a placeholder, the tokens begin with no part of a word. -/
def Apart (tokens : List Token) : Prop :=
  ∀ token, tokens.head? = some token → ∃ c, token = .char c ∧ isWordChar c = false

/-- The tokens have these operands in this order, each apart from what follows, and characters of a
class between. -/
inductive Reads (p : Char → Prop) : List Token → List (Test × String) → Prop where
  | nil : Reads p [] []
  | char {c : Char} {tokens : List Token} {operands : List (Test × String)} (spelled : p c)
      (rest : Reads p tokens operands) : Reads p (.char c :: tokens) operands
  | operand {test : Test} {param : String} {tokens : List Token}
      {operands : List (Test × String)} (apart : Apart tokens) (rest : Reads p tokens operands) :
      Reads p (.operand test param :: tokens) ((test, param) :: operands)

variable {p : Char → Prop} {xs ys : List Token} {operands operands' : List (Test × String)}

theorem apart_nil : Apart [] := by
  intro token h
  cases h

theorem apart_char {c : Char} (hc : isWordChar c = false) (tokens : List Token) :
    Apart (.char c :: tokens) := by
  rintro token ⟨⟩
  exact ⟨c, rfl, hc⟩

theorem Apart.append (hxs : Apart xs) (hys : Apart ys) : Apart (xs ++ ys) := by
  cases xs with
  | nil => exact hys
  | cons x xs =>
    intro token htoken
    exact hxs token htoken

/-- Tokens that begin apart can follow any others. -/
theorem Reads.append (hxs : Reads p xs operands) (hys : Reads p ys operands') (hapart : Apart ys) :
    Reads p (xs ++ ys) (operands ++ operands') := by
  induction hxs with
  | nil => exact hys
  | char spelled rest ih => exact .char spelled ih
  | operand apart rest ih => exact .operand (apart.append hapart) ih

/-- Characters can stand in front of any tokens. -/
theorem Reads.chars {cs : List Char} (hcs : ∀ c ∈ cs, p c) (hys : Reads p ys operands) :
    Reads p (cs.map .char ++ ys) operands := by
  induction cs with
  | nil => exact hys
  | cons c cs ih =>
    exact .char (hcs c List.mem_cons_self) (ih fun d hd => hcs d (List.mem_cons_of_mem _ hd))

theorem reads_chars {cs : List Char} (hcs : ∀ c ∈ cs, p c) : Reads p (cs.map .char) [] := by
  have h := Reads.chars hcs (.nil (p := p))
  rwa [List.append_nil] at h

/-- The operands are those among the tokens. -/
theorem Reads.mem_iff (h : Reads p xs operands) {test : Test} {param : String} :
    (test, param) ∈ operands ↔ .operand test param ∈ xs := by
  induction h with
  | nil => simp
  | char spelled rest ih => simp [ih]
  | operand apart rest ih => simp [ih]

/-- What follows an operand is apart from it. -/
theorem Reads.apart_of_split {front back : List Token} {test : Test} {param : String}
    (h : Reads p (front ++ .operand test param :: back) operands) : Apart back := by
  induction front generalizing operands with
  | nil =>
    cases h with
    | operand apart rest => exact apart
  | cons x front ih =>
    cases h with
    | char spelled rest => exact ih rest
    | operand apart rest => exact ih rest

end Token

/-! ## Names in the text -/

/-- The name occurs in the text: as the whole run of word characters behind a colon. -/
def MentionedIn (name : String) (text : List Char) : Prop :=
  ∃ front back, text = front ++ ':' :: back ∧ PositionalQuery.nameAt back = name

section Names

open PositionalQuery

variable {tokens : List Token} {operands : List (Test × String)}

theorem head?_textOf {tokens : List Token} (h : Apart tokens) :
    ∀ c, (textOf tokens).head? = some c → isWordChar c = false := by
  cases tokens with
  | nil => simp
  | cons token tokens =>
    rcases h token rfl with ⟨c, rfl, hc⟩
    rintro d ⟨⟩
    exact hc

/-- The name of an operand is read back from the text. -/
theorem nameAt_operand {param : String} (hword : ∀ c ∈ param.toList, isWordChar c = true)
    (hapart : Apart tokens) :
    nameAt (param.toList ++ textOf tokens) = param ∧
      (param.toList ++ textOf tokens).dropWhile isWordChar = textOf tokens := by
  rcases takeWhile_run hword (head?_textOf hapart) with ⟨htake, hdrop⟩
  exact ⟨by rw [nameAt, htake, String.ofList_toList], hdrop⟩

theorem mentionedIn_cons {c : Char} (hc : c ≠ ':') (name : String) (text : List Char) :
    MentionedIn name (c :: text) ↔ MentionedIn name text := by
  constructor
  · rintro ⟨front, back, htext, hname⟩
    cases front with
    | nil =>
      rw [List.nil_append] at htext
      exact absurd (List.cons.inj htext).1 hc
    | cons d front => exact ⟨front, back, (List.cons.inj htext).2, hname⟩
  · rintro ⟨front, back, htext, hname⟩
    exact ⟨c :: front, back, congrArg (c :: ·) htext, hname⟩

theorem mentionedIn_append {run : List Char} (hrun : ∀ c ∈ run, c ≠ ':') (name : String)
    (text : List Char) : MentionedIn name (run ++ text) ↔ MentionedIn name text := by
  induction run with
  | nil => rfl
  | cons c run ih =>
    rw [List.cons_append, mentionedIn_cons (hrun c List.mem_cons_self),
      ih fun d hd => hrun d (List.mem_cons_of_mem _ hd)]

theorem mentionedIn_colon (name : String) (text : List Char) :
    MentionedIn name (':' :: text) ↔ nameAt text = name ∨ MentionedIn name text := by
  constructor
  · rintro ⟨front, back, htext, hname⟩
    cases front with
    | nil =>
      rw [(List.cons.inj htext).2]
      exact .inl hname
    | cons d front => exact .inr ⟨front, back, (List.cons.inj htext).2, hname⟩
  · rintro (hname | ⟨front, back, htext, hname⟩)
    · exact ⟨[], text, rfl, hname⟩
    · exact ⟨':' :: front, back, congrArg (':' :: ·) htext, hname⟩

/-- Where no other character is a colon, the names in the text are those of the operands. -/
theorem Token.Reads.mentionedIn_iff (h : Reads (· ≠ ':') tokens operands)
    (hword : ∀ o ∈ operands, ∀ c ∈ o.2.toList, isWordChar c = true) (name : String) :
    MentionedIn name (textOf tokens) ↔ ∃ test, (test, name) ∈ operands := by
  induction h with
  | nil =>
    constructor
    · rintro ⟨front, back, htext, _⟩
      simp at htext
    · rintro ⟨test, htest⟩
      cases htest
  | char hc rest ih =>
    rw [← ih hword]
    exact mentionedIn_cons hc name _
  | @operand test param tokens operands apart rest ih =>
    have hparam : ∀ c ∈ param.toList, isWordChar c = true := hword _ List.mem_cons_self
    -- the name itself holds no colon, so nothing starts inside it
    have hcolon : ∀ c ∈ param.toList, c ≠ ':' := fun c hc => ne_colon_of_isWordChar (hparam c hc)
    have hrest := ih fun o ho => hword o (List.mem_cons_of_mem _ ho)
    have htext : textOf (.operand test param :: tokens)
        = ':' :: (param.toList ++ textOf tokens) := rfl
    rw [htext, mentionedIn_colon, (nameAt_operand hparam apart).1, mentionedIn_append hcolon, hrest]
    constructor
    · rintro (rfl | ⟨other, hother⟩)
      · exact ⟨test, List.mem_cons_self⟩
      · exact ⟨other, List.mem_cons_of_mem _ hother⟩
    · rintro ⟨other, hother⟩
      rcases List.mem_cons.1 hother with heq | hother
      · cases heq
        exact .inl rfl
      · exact .inr ⟨other, hother⟩

/-- A substitution replaces an operand by what it writes for its name. -/
theorem substitute_operand {β : Type} {copy : Char → β} {write : String → Option (List β)}
    {test : Test} {param : String} {front back : List Token} {written : List β}
    (hwrite : write param = some written) (hword : ∀ c ∈ param.toList, isWordChar c = true)
    (hapart : Apart back) :
    substitute copy write (textOf (front ++ .operand test param :: back))
      = substitute copy write (textOf front) ++ (written ++ substitute copy write (textOf back)) := by
  rcases nameAt_operand hword hapart with ⟨hname, hdrop⟩
  have htext : textOf (front ++ .operand test param :: back)
      = textOf front ++ ':' :: (param.toList ++ textOf back) := textOf_append _ _
  rw [htext, substitute_append_colon, substitute_name (by rw [hname]; exact hwrite), hdrop]

end Names

end DocQuery
