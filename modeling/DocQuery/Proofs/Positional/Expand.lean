import DocQuery.Positional
import DocQuery.Proofs.Text.Split

namespace DocQuery

/-! # Expanding the marked places of a text

A marker starts each part of a text but the first. Expanding a text replaces every marker, with what
it reads of the part behind it, and copies the rest. Nothing here scans the text piece by piece, so
that the scanner of parameters can be compared with it.

* `expandAt_append_marker`: a text is expanded part by part at its markers.
* `substitute_name`: a known name is replaced.
* `substitute_other`: an unknown one is copied.
-/

/-- The text with `expand part` for each marker and the part behind it, and the front copied. -/
def expandAt {β : Type} (marker : Char) (copy : Char → β) (expand : List Char → List β)
    (text : List Char) : List β :=
  match text.splitOn marker with
  | [] => []
  | front :: parts => front.map copy ++ parts.flatMap expand

section Expand

variable {β : Type} {marker c : Char} {copy : Char → β} {expand : List Char → List β}

/-- What is no marker is copied. -/
theorem expandAt_cons_of_ne (hc : c ≠ marker) (text : List Char) :
    expandAt marker copy expand (c :: text) = copy c :: expandAt marker copy expand text := by
  rcases exists_splitOnP (· == marker) text with ⟨front, parts, h⟩
  have hcons := splitOnP_cons_of_not (c := c) (by simpa using hc) h
  rw [expandAt, List.splitOn, hcons, expandAt, List.splitOn, h]
  rfl

/-- A marker that reads a run behind it. -/
theorem expandAt_marker_append {run rest : List Char} {written : List β}
    (hrun : ∀ c ∈ run, c ≠ marker)
    (hexpand : ∀ front : List Char, (∀ c, front.head? = some c → rest.head? = some c) →
      expand (run ++ front) = written ++ front.map copy) :
    expandAt marker copy expand (marker :: (run ++ rest))
      = written ++ expandAt marker copy expand rest := by
  rcases exists_splitOnP (· == marker) rest with ⟨front, parts, h⟩
  have happend := splitOnP_append h fun c hc => beq_eq_false_iff_ne.2 (hrun c hc)
  have hwritten := hexpand front fun c => head?_front h
  rw [expandAt, List.splitOn, splitOnP_cons_separator (by simp), happend, expandAt, List.splitOn, h]
  simp [hwritten]

/-- A run without a marker is copied. -/
theorem expandAt_append {run : List Char} (hrun : ∀ c ∈ run, c ≠ marker) (text : List Char) :
    expandAt marker copy expand (run ++ text) = run.map copy ++ expandAt marker copy expand text := by
  induction run with
  | nil => rfl
  | cons c run ih =>
    rw [List.cons_append, expandAt_cons_of_ne (hrun c List.mem_cons_self),
      ih fun c hc => hrun c (List.mem_cons_of_mem _ hc)]
    rfl

/-- What stands in front of a marker and what the marker starts are expanded apart. -/
theorem expandAt_append_marker (text rest : List Char) :
    expandAt marker copy expand (text ++ marker :: rest)
      = expandAt marker copy expand text ++ expandAt marker copy expand (marker :: rest) := by
  rcases exists_splitOnP (· == marker) text with ⟨front, parts, h⟩
  rw [expandAt, List.splitOn, List.splitOnP_append_cons _ _ (by simp), expandAt, List.splitOn, h,
    expandAt, List.splitOn, splitOnP_cons_separator (by simp)]
  simp

end Expand

namespace PositionalQuery

variable {β : Type}

/-- The part behind a colon: the name there is written out if `write` has a text for it, else it is
copied with the colon. -/
def substitutePart (copy : Char → β) (write : String → Option (List β)) (part : List Char) : List β :=
  match write (nameAt part) with
  | some written => written ++ (part.dropWhile isWordChar).map copy
  | none => copy ':' :: part.map copy

/-- The text with the colons in front of the names that `write` has a text for, and those names,
replaced by these texts. A name is the longest run of word characters behind a colon. -/
def substitute (copy : Char → β) (write : String → Option (List β)) (text : List Char) : List β :=
  expandAt ':' copy (substitutePart copy write) text

variable {copy : Char → β} {write : String → Option (List β)} {rest : List Char}

theorem isWordChar_colon : isWordChar ':' = false := by decide +kernel

theorem ne_colon_of_isWordChar {c : Char} (h : isWordChar c = true) : c ≠ ':' := by
  rintro rfl
  rw [isWordChar_colon] at h
  cases h

/-- A name holds no colon. -/
theorem ne_colon_of_mem_takeWhile : ∀ c ∈ rest.takeWhile isWordChar, c ≠ ':' :=
  fun _ hc => ne_colon_of_isWordChar (List.mem_takeWhile_imp hc)

/-- The name behind a colon ends in the part that the colon starts. -/
theorem nameAt_run {front : List Char}
    (hfront : ∀ c, front.head? = some c → (rest.dropWhile isWordChar).head? = some c) :
    nameAt (rest.takeWhile isWordChar ++ front) = nameAt rest ∧
      (rest.takeWhile isWordChar ++ front).dropWhile isWordChar = front := by
  rcases takeWhile_run (fun c hc => List.mem_takeWhile_imp hc)
    (fun c hc => head?_dropWhile (hfront c hc)) with ⟨htake, hdrop⟩
  exact ⟨by rw [nameAt, htake, nameAt], hdrop⟩

theorem substitute_cons {c : Char} (hc : c ≠ ':') (text : List Char) :
    substitute copy write (c :: text) = copy c :: substitute copy write text :=
  expandAt_cons_of_ne hc text

/-- What a colon becomes depends on the name behind it only. -/
theorem substitute_colon {written : List β}
    (h : ∀ front, nameAt (rest.takeWhile isWordChar ++ front) = nameAt rest →
      (rest.takeWhile isWordChar ++ front).dropWhile isWordChar = front →
      substitutePart copy write (rest.takeWhile isWordChar ++ front) = written ++ front.map copy) :
    substitute copy write (':' :: rest)
      = written ++ substitute copy write (rest.dropWhile isWordChar) := by
  -- a name ends where its run of word characters does, whatever follows it in the part
  have hcolon : substitute copy write
      (':' :: (rest.takeWhile isWordChar ++ rest.dropWhile isWordChar))
        = written ++ substitute copy write (rest.dropWhile isWordChar) := by
    refine expandAt_marker_append ne_colon_of_mem_takeWhile fun front hfront => ?_
    rcases nameAt_run hfront with ⟨hname, hdrop⟩
    exact h front hname hdrop
  rwa [List.takeWhile_append_dropWhile] at hcolon

/-- A colon in front of a name that is written out. -/
theorem substitute_name {written : List β} (h : write (nameAt rest) = some written) :
    substitute copy write (':' :: rest)
      = written ++ substitute copy write (rest.dropWhile isWordChar) := by
  refine substitute_colon fun front hname hdrop => ?_
  simp only [substitutePart, hname, hdrop, h]

/-- A colon in front of anything else is copied. -/
theorem substitute_other (h : write (nameAt rest) = none) :
    substitute copy write (':' :: rest) = copy ':' :: substitute copy write rest := by
  have hcolon : substitute copy write (':' :: rest)
      = (copy ':' :: (rest.takeWhile isWordChar).map copy)
        ++ substitute copy write (rest.dropWhile isWordChar) := by
    refine substitute_colon fun front hname _ => ?_
    simp [substitutePart, hname, h]
  -- the run behind the colon holds no colon, so that it is copied with the rest
  have hcopied : substitute copy write (rest.takeWhile isWordChar ++ rest.dropWhile isWordChar)
      = (rest.takeWhile isWordChar).map copy ++ substitute copy write (rest.dropWhile isWordChar) :=
    expandAt_append ne_colon_of_mem_takeWhile _
  rw [List.takeWhile_append_dropWhile] at hcopied
  rw [hcolon, hcopied]
  rfl

/-- What stands in front of a colon and what the colon starts are substituted apart. -/
theorem substitute_append_colon (front rest : List Char) :
    substitute copy write (front ++ ':' :: rest)
      = substitute copy write front ++ substitute copy write (':' :: rest) :=
  expandAt_append_marker front rest

end PositionalQuery

end DocQuery
