import Mathlib.Data.List.SplitBy
import Mathlib.Data.List.TakeWhile
import DocQuery.Text.Blank

namespace DocQuery

/-! # Words between blanks

A text is cut into words where blanks end or begin: blanks give no words, and a piece without a
blank is one.

* `words_append`: a text is cut into words piece by piece where its class of characters changes.
* `trimBlanks_append`: blanks in front of a text and behind it are trimmed.
* `Tight.trimBlanks_eq`: a text without blanks at its ends stays as it is.
-/

/-- The text has no blank in it. -/
def BlankFree (text : List Char) : Prop := ∀ c ∈ text, isBlank c = false

instance (text : List Char) : Decidable (BlankFree text) :=
  List.decidableBAll _ text

/-- The text has only blanks in it. -/
def Blanks (text : List Char) : Prop := ∀ c ∈ text, isBlank c = true

instance (text : List Char) : Decidable (Blanks text) :=
  List.decidableBAll _ text

variable {text front back word : List Char}

theorem Blanks.append (h : Blanks front) (h' : Blanks back) : Blanks (front ++ back) :=
  List.forall_mem_append.2 ⟨h, h'⟩

/-- Characters that are all blank, or all not, make one piece. -/
theorem splitBy_of_same {b : Bool} (h : ∀ c ∈ text, isBlank c = b) (hne : text ≠ []) :
    text.splitBy (fun a b => isBlank a == isBlank b) = [text] := by
  have hpairs : text.Pairwise fun a b => (isBlank a == isBlank b) = true := by
    refine List.pairwise_of_forall_mem_list ?_
    intro c hc c' hc'
    rw [h c hc, h c' hc', beq_self_eq_true]
  exact List.splitBy_of_isChain hne hpairs.isChain

theorem words_of_blanks (h : Blanks text) : words text = [] := by
  cases text with
  | nil => rfl
  | cons c text =>
    have hblank := h c List.mem_cons_self
    simp [words, splitBy_of_same h (List.cons_ne_nil c text), hblank]

theorem words_of_blankFree (h : BlankFree word) (hne : word ≠ []) : words word = [word] := by
  cases word with
  | nil => exact absurd rfl hne
  | cons c word =>
    have hblank := h c List.mem_cons_self
    simp [words, splitBy_of_same h hne, hblank]

/-- Where blanks meet other characters, a text can be cut. -/
theorem words_append (h : ∀ c ∈ front.getLast?, ∀ c' ∈ back.head?, isBlank c ≠ isBlank c') :
    words (front ++ back) = words front ++ words back := by
  have hcut : ∀ c ∈ front.getLast?, ∀ c' ∈ back.head?, (isBlank c == isBlank c') = false :=
    fun c hc c' hc' => beq_false_of_ne (h c hc c' hc')
  rw [words, List.splitBy_append hcut, List.filter_append, words, words]

/-- Blanks in front of a word do not count. -/
theorem words_blanks_append (h : Blanks front) (hword : BlankFree word) (hne : word ≠ [])
    (back : List Char) : words (front ++ (word ++ back)) = words (word ++ back) := by
  rw [words_append, words_of_blanks h, List.nil_append]
  intro c hc c' hc'
  have hc' : c' ∈ word := by
    rw [List.head?_append_of_ne_nil word hne] at hc'
    exact List.mem_of_mem_head? hc'
  rw [h c (List.mem_of_mem_getLast? hc), hword c' hc']
  exact Bool.noConfusion

/-- A word ends where blanks begin. -/
theorem words_word_append (hword : BlankFree word) (hne : word ≠ [])
    (hback : ∀ c ∈ back.head?, isBlank c = true) : words (word ++ back) = word :: words back := by
  rw [words_append, words_of_blankFree hword hne, List.singleton_append]
  intro c hc c' hc'
  rw [hword c (List.mem_of_mem_getLast? hc), hback c' hc']
  exact Bool.noConfusion

/-- Blanks behind a word do not count. -/
theorem words_word_blanks (hword : BlankFree word) (hne : word ≠ []) (hback : Blanks back) :
    words (word ++ back) = [word] := by
  rw [words_word_append hword hne fun c hc => hback c (List.mem_of_mem_head? hc), words_of_blanks hback]

/-! ## Blanks at the ends -/

/-- The text has no blank at either end. -/
structure Tight (text : List Char) : Prop where
  ne_nil : text ≠ []
  head? : ∀ c ∈ text.head?, isBlank c = false
  getLast? : ∀ c ∈ text.getLast?, isBlank c = false

theorem Tight.of_blankFree (h : BlankFree word) (hne : word ≠ []) : Tight word :=
  ⟨hne, fun c hc => h c (List.mem_of_mem_head? hc), fun c hc => h c (List.mem_of_mem_getLast? hc)⟩

/-- What stands between does not matter. -/
theorem Tight.append (h : Tight front) (h' : Tight back) (between : List Char) :
    Tight (front ++ (between ++ back)) := by
  refine ⟨List.append_ne_nil_of_left_ne_nil h.ne_nil _, fun c hc => ?_, fun c hc => ?_⟩
  · rw [List.head?_append_of_ne_nil _ h.ne_nil] at hc
    exact h.head? c hc
  · rw [← List.append_assoc, List.getLast?_append_of_ne_nil _ h'.ne_nil] at hc
    exact h'.getLast? c hc

theorem Tight.append_cons (h : Tight front) (h' : Tight back) (c : Char) : Tight (front ++ c :: back) :=
  h.append h' [c]

theorem Tight.reverse (h : Tight text) : Tight text.reverse := by
  refine ⟨List.reverse_ne_nil_iff.2 h.ne_nil, ?_, ?_⟩
  · rw [List.head?_reverse]
    exact h.getLast?
  · rw [List.getLast?_reverse]
    exact h.head?

theorem Tight.dropWhile_append (h : Tight text) (rest : List Char) :
    (text ++ rest).dropWhile isBlank = text ++ rest := by
  obtain ⟨c, text', rfl⟩ := List.exists_cons_of_ne_nil h.ne_nil
  have hblank : isBlank c = false := h.head? c rfl
  rw [List.cons_append, List.dropWhile_cons_of_neg (by simp [hblank])]

theorem Tight.dropWhile_eq (h : Tight text) : text.dropWhile isBlank = text := by
  simpa using h.dropWhile_append []

/-- There is nothing to remove from such a text. -/
theorem Tight.trimBlanks_eq (h : Tight text) : trimBlanks text = text := by
  rw [trimBlanks, h.dropWhile_eq, h.reverse.dropWhile_eq, List.reverse_reverse]

/-- Blanks around a text make no difference to what is left of it. -/
theorem trimBlanks_append (hfront : Blanks front) (hback : Blanks back) (text : List Char) :
    trimBlanks (front ++ (text ++ back)) = trimBlanks text := by
  have hback' : Blanks back.reverse := fun c hc => hback c (List.mem_reverse.1 hc)
  rw [trimBlanks, trimBlanks, List.dropWhile_append_of_pos hfront, List.dropWhile_append]
  split_ifs with hempty
  · -- a text of blanks only leaves nothing, and the blanks behind it do not either
    rw [List.isEmpty_iff.1 hempty, List.dropWhile_eq_nil_iff.2 hback]
  · rw [List.reverse_append, List.dropWhile_append_of_pos hback']

end DocQuery
