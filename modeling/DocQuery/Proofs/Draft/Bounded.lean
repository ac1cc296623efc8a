import DocQuery.Config
import DocQuery.Proofs.Draft.Fresh
import Mathlib.Data.Nat.Digits.Defs
import Mathlib.Data.String.Basic
import Mathlib.Order.Interval.Finset.Nat

namespace DocQuery

/-! # Fresh aliases are short

An alias with a counter takes as many bytes of the wanted text as leave room for the counter. The
room that a configuration must have is enough for a counter of eight digits, and no counter gets
longer while fewer than ten million aliases are in use.

* `Config.room_of_validate`: a valid configuration leaves room for the counter.
-/

namespace FreshAlias

theorem takeBytes_utf8Len_le (room : Nat) (cs : List Char) :
    String.utf8Len (takeBytes room cs) ≤ room := by
  induction cs generalizing room with
  | nil => simp [takeBytes]
  | cons c cs ih =>
    -- a character that does not fit ends the text
    rw [takeBytes]
    split
    · rename_i hfits
      have hrest := ih (room - c.utf8Size)
      rw [String.utf8Len_cons]
      omega
    · simp

/-- Digits are written with one byte each. -/
theorem utf8Len_of_digits {cs : List Char} (h : ∀ c ∈ cs, c.isDigit = true) :
    String.utf8Len cs = cs.length := by
  induction cs with
  | nil => rfl
  | cons c cs ih =>
    rw [List.forall_mem_cons] at h
    have hone : c.utf8Size = 1 := by
      have hdigit := h.1
      simp only [Char.isDigit, Bool.and_eq_true, decide_eq_true_eq] at hdigit
      exact Char.utf8Size_eq_one_iff.2 (UInt32.le_trans hdigit.2 (by decide))
    rw [String.utf8Len_cons, hone, ih h.2, List.length_cons]

theorem utf8ByteSize_suffix (n : Nat) :
    (suffix n).utf8ByteSize = 1 + (Nat.toDigits 10 n).length := by
  have hdigits : String.utf8Len (Nat.toDigits 10 n) = (Nat.toDigits 10 n).length :=
    utf8Len_of_digits fun c hc => Nat.isDigit_of_mem_toDigits (by decide) (by decide) hc
  rw [← String.utf8Len_toList, toList_suffix, String.utf8Len_cons, hdigits]
  have hmark : ('_' : Char).utf8Size = 1 := by decide
  omega

/-- A counter up to ten million has at most eight digits. -/
theorem utf8ByteSize_suffix_le {n : Nat} (h : n ≤ 10 ^ 7) : (suffix n).utf8ByteSize ≤ 9 := by
  have hlength := Nat.toDigits_length 10 n 8 (by decide) (by omega)
  rw [utf8ByteSize_suffix]
  omega

/-- An alias with a counter is not too long unless the counter itself is. -/
theorem utf8ByteSize_candidate_le {maxLength n : Nat} (wanted : String)
    (h : (suffix n).utf8ByteSize ≤ maxLength) :
    (candidate maxLength wanted n).utf8ByteSize ≤ maxLength := by
  have hhead := takeBytes_utf8Len_le (maxLength - (suffix n).utf8ByteSize) wanted.toList
  rw [candidate, String.utf8ByteSize_append, String.utf8ByteSize_ofList]
  omega

/-- The counter that is found is at most one more than the number of aliases in use. -/
theorem counter_le (maxLength : Nat) (used : List String) (wanted : String) :
    counter maxLength used wanted ≤ used.toFinset.card + 1 := by
  have hfirst := counter_firstFree maxLength used wanted
  -- the candidates in front of it are different aliases in use
  have hcard : (Finset.Ico 1 (counter maxLength used wanted)).card ≤ used.toFinset.card := by
    refine Finset.card_le_card_of_injOn (candidate maxLength wanted) ?_ ?_
    · intro n hn
      have hbounds := Finset.mem_Ico.1 hn
      exact List.mem_toFinset.2 (hfirst.least n hbounds.1 hbounds.2)
    · intro m _ n _ h
      exact candidate_inj h
  rw [Nat.card_Ico] at hcard
  omega

end FreshAlias

/-- A usable configuration leaves room for a counter of eight digits. -/
theorem Config.room_of_validate {c : Config} (hvalid : c.validate = .ok ()) :
    9 ≤ c.maxIdentifierLength := by
  unfold validate at hvalid
  split at hvalid
  · cases hvalid
  · rename_i hstem
    have hnonempty : c.aliasStem.utf8ByteSize ≠ 0 := by
      rwa [ne_eq, ← String.isEmpty_iff_utf8ByteSize_eq_zero]
    split at hvalid
    · cases hvalid
    · split at hvalid
      · cases hvalid
      · rw [aliasRoom] at *
        omega

/-- A fresh alias is not too long while fewer than ten million aliases are in use. -/
theorem utf8ByteSize_freshAlias_le {maxLength : Nat} (hroom : 9 ≤ maxLength) {used : List String}
    (hused : used.toFinset.card < 10 ^ 7) (wanted : String) :
    (freshAlias maxLength used wanted).utf8ByteSize ≤ maxLength := by
  unfold freshAlias
  split
  · rename_i hfits
    exact hfits.1
  · have hcounter := FreshAlias.counter_le maxLength used wanted
    have hsuffix := FreshAlias.utf8ByteSize_suffix_le (hcounter.trans hused)
    exact FreshAlias.utf8ByteSize_candidate_le wanted (hsuffix.trans hroom)

end DocQuery
