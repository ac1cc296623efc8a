import Mathlib.Data.List.TakeWhile

namespace DocQuery

/-! # Splitting and joining texts

A run of characters of one class ends where another character comes. A text that is split at some
class of characters has a front and parts behind its separators; a run without separators belongs to
the front, and pieces without separators are what the text made of them splits into.

* `splitOnP_intercalate`: pieces without separators are what the text made of them splits into.
* `forall_not_of_mem_splitOnP`: no piece of a split text holds a separator.
-/

section Run

variable {p : Char → Bool} {run rest : List Char} {c : Char}

/-- A run of characters of one class ends where none of the class follows. -/
theorem takeWhile_run (hrun : ∀ c ∈ run, p c = true) (hrest : ∀ c, rest.head? = some c → p c = false) :
    (run ++ rest).takeWhile p = run ∧ (run ++ rest).dropWhile p = rest := by
  rw [List.takeWhile_append_of_pos hrun, List.dropWhile_append_of_pos hrun]
  cases rest with
  | nil => simp
  | cons c rest =>
    have hc := hrest c rfl
    simp [hc]

/-- What is left behind a run does not go on with the class of the run. -/
theorem head?_dropWhile (h : (rest.dropWhile p).head? = some c) : p c = false := by
  have hnot := List.head?_dropWhile_not p rest
  rw [h] at hnot
  exact hnot

end Run

section Split

variable {p : Char → Bool} {c : Char} {text front : List Char} {parts : List (List Char)}

/-- A text has a front, and parts behind its separators. -/
theorem exists_splitOnP (p : Char → Bool) (text : List Char) :
    ∃ front parts, text.splitOnP p = front :: parts :=
  List.exists_cons_of_ne_nil (List.splitOnP_ne_nil p text)

/-- A character that does not separate belongs to the front. -/
theorem splitOnP_cons_of_not (hc : p c = false) (h : text.splitOnP p = front :: parts) :
    (c :: text).splitOnP p = (c :: front) :: parts := by
  rw [List.splitOnP_cons_eq_if_modifyHead, if_neg (by simp [hc]), h]
  rfl

/-- A separator has nothing in front of it. -/
theorem splitOnP_cons_separator (hc : p c = true) (text : List Char) :
    (c :: text).splitOnP p = [] :: text.splitOnP p := by
  rw [List.splitOnP_cons_eq_if_modifyHead, if_pos hc]

/-- Characters that do not separate belong to the front. -/
theorem splitOnP_append (h : text.splitOnP p = front :: parts) {run : List Char}
    (hrun : ∀ c ∈ run, p c = false) : (run ++ text).splitOnP p = (run ++ front) :: parts := by
  induction run with
  | nil => exact h
  | cons c run ih =>
    have hrest := ih fun c hc => hrun c (List.mem_cons_of_mem _ hc)
    exact splitOnP_cons_of_not (hrun c List.mem_cons_self) hrest

/-- The front starts as the text does, as long as nothing that separates comes. -/
theorem head?_front (h : text.splitOnP p = front :: parts) (hc : front.head? = some c) :
    text.head? = some c := by
  cases text with
  | nil =>
    cases h
    cases hc
  | cons d rest =>
    rcases exists_splitOnP p rest with ⟨next, more, hrest⟩
    cases hd : p d with
    | true =>
      rw [splitOnP_cons_separator hd] at h
      cases h
      cases hc
    | false =>
      rw [splitOnP_cons_of_not hd hrest] at h
      cases h
      exact hc

/-- Pieces without separators are told apart again, whatever else separates. -/
theorem splitOnP_intercalate (hc : p c = true) {pieces : List (List Char)} (hne : pieces ≠ [])
    (h : ∀ piece ∈ pieces, ∀ d ∈ piece, p d = false) :
    ([c].intercalate pieces).splitOnP p = pieces := by
  induction pieces with
  | nil => exact absurd rfl hne
  | cons piece more ih =>
    have hpiece := h piece List.mem_cons_self
    cases more with
    | nil =>
      rw [List.intercalate_singleton]
      exact List.splitOnP_eq_singleton hpiece
    | cons next more =>
      have hmore := ih (List.cons_ne_nil _ _) fun p hp => h p (List.mem_cons_of_mem _ hp)
      rw [List.intercalate_cons_cons, List.append_assoc, List.singleton_append,
        List.splitOnP_append_cons_of_forall_mem hpiece c hc, hmore]

/-- No piece has a separator in it. -/
theorem forall_not_of_mem_splitOnP {piece : List Char} (h : piece ∈ text.splitOnP p) :
    ∀ d ∈ piece, p d = false := by
  induction text generalizing piece with
  | nil =>
    rw [List.splitOnP_nil, List.mem_singleton] at h
    rw [h]
    exact List.forall_mem_nil _
  | cons c text ih =>
    rcases exists_splitOnP p text with ⟨front, parts, htext⟩
    rw [htext] at ih
    -- a separator starts a new piece, and any other character belongs to the first one
    cases hc : p c with
    | true =>
      rw [splitOnP_cons_separator hc, htext, List.mem_cons] at h
      rcases h with rfl | h
      · exact List.forall_mem_nil _
      · exact ih h
    | false =>
      rw [splitOnP_cons_of_not hc htext, List.mem_cons] at h
      rcases h with rfl | h
      · exact List.forall_mem_cons.2 ⟨hc, ih List.mem_cons_self⟩
      · exact ih (List.mem_cons_of_mem _ h)

end Split

end DocQuery
