import Mathlib.Data.List.Nodup
import Mathlib.Data.List.Perm.Subperm
import DocQuery.Draft.Alias

namespace DocQuery

/-! # Fresh aliases are fresh

Both searches for a free name (an alias with a counter, a path for a derived table) try one more
candidate than there are names in use. The candidates are pairwise different, so one of them is
free, and the search gives it.

* `find?_firstFree`: a search with one more candidate than there are names in use finds the first
  free one.
-/

/-- Among one more candidates than there are used names, one is free. -/
theorem exists_free {α : Type} {candidate : Nat → α} (used : List α)
    (hinj : ∀ m n, 1 ≤ m → 1 ≤ n → candidate m = candidate n → m = n) :
    ∃ n ∈ List.range' 1 (used.length + 1), candidate n ∉ used := by
  by_contra hnone
  have hsub : (List.range' 1 (used.length + 1)).map candidate ⊆ used := by
    intro name hname
    rcases List.mem_map.1 hname with ⟨n, hn, rfl⟩
    by_contra hfree
    exact hnone ⟨n, hn, hfree⟩
  -- more candidates than names, and no two alike
  have hnodup : ((List.range' 1 (used.length + 1)).map candidate).Nodup := by
    refine List.Nodup.map_on (fun m hm n hn hmn => ?_) List.nodup_range'
    rw [List.mem_range'_1] at hm hn
    exact hinj m n hm.1 hn.1 hmn
  have hlength := (List.subperm_of_subset hnodup hsub).length_le
  rw [List.length_map, List.length_range'] at hlength
  omega

/-- The candidate is free, and all before it are used. -/
structure FirstFree {α : Type} (candidate : Nat → α) (used : List α) (n : Nat) : Prop where
  pos : 1 ≤ n
  free : candidate n ∉ used
  least : ∀ k, 1 ≤ k → k < n → candidate k ∈ used

/-- The search among one more candidates than there are used names finds the first free one. -/
theorem find?_firstFree {α : Type} [DecidableEq α] (candidate : Nat → α) (used : List α)
    (hinj : ∀ m n, 1 ≤ m → 1 ≤ n → candidate m = candidate n → m = n) :
    ∃ n, (List.range' 1 (used.length + 1)).find? (fun n => candidate n ∉ used) = some n ∧
      FirstFree candidate used n := by
  rcases exists_free used hinj with ⟨free, hrange, hfree⟩
  have hsome : ((List.range' 1 (used.length + 1)).find? fun n => candidate n ∉ used).isSome := by
    rw [List.find?_isSome]
    exact ⟨free, hrange, by simpa using hfree⟩
  rcases Option.isSome_iff_exists.1 hsome with ⟨n, hn⟩
  refine ⟨n, hn, ?_⟩
  rw [List.find?_range'_eq_some, List.mem_range'_1] at hn
  rcases hn with ⟨hfound, hbounds, hbefore⟩
  refine ⟨hbounds.1, by simpa using hfound, fun k hk hlt => ?_⟩
  simpa using hbefore k hk hlt

/-- The first free candidate only depends on which candidates are used. -/
theorem FirstFree.unique {α : Type} {candidate : Nat → α} {used used' : List α} {m n : Nat}
    (h : FirstFree candidate used m) (h' : FirstFree candidate used' n)
    (hsame : ∀ k, candidate k ∈ used ↔ candidate k ∈ used') : m = n := by
  rcases Nat.lt_trichotomy m n with hlt | heq | hlt
  · exact absurd ((hsame m).2 (h'.least m h.pos hlt)) h.free
  · exact heq
  · exact absurd ((hsame n).1 (h.least n h'.pos hlt)) h'.free

theorem toDigits_inj {m n : Nat} (h : Nat.toDigits 10 m = Nat.toDigits 10 n) : m = n := by
  have hvalue := congrArg (Nat.ofDigitChars 10 · 0) h
  simpa using hvalue

theorem toString_inj {m n : Nat} (h : toString m = toString n) : m = n := by
  refine toDigits_inj ?_
  simpa using congrArg String.toList h

/-- What follows the last separator is determined by the whole text. -/
theorem tail_eq_of_append_eq {separator : Char} {head head' tail tail' : List Char}
    (htail : separator ∉ tail) (htail' : separator ∉ tail')
    (h : head ++ separator :: tail = head' ++ separator :: tail') : tail = tail' := by
  -- read from the end, the tail is what stands before the first separator
  have hcut : ∀ head tail : List Char, separator ∉ tail →
      (head ++ separator :: tail).reverse.takeWhile (· ≠ separator) = tail.reverse := by
    intro head tail hmem
    rw [List.reverse_append, List.reverse_cons, List.append_assoc,
      List.takeWhile_append_of_pos]
    · simp
    · intro c hc
      simp only [ne_eq, decide_not, Bool.not_eq_eq_eq_not, Bool.not_true, decide_eq_false_iff_not]
      rintro rfl
      exact hmem (List.mem_reverse.1 hc)
  have hreverse : tail.reverse = tail'.reverse := by
    rw [← hcut head tail htail, ← hcut head' tail' htail', h]
  exact List.reverse_injective hreverse

namespace FreshAlias

theorem takeBytes_prefix (room : Nat) (cs : List Char) : takeBytes room cs <+: cs := by
  fun_induction takeBytes room cs with
  | case1 => exact List.nil_prefix
  | case2 room c rest _ ih => exact List.cons_prefix_cons.2 ⟨rfl, ih⟩
  | case3 => exact List.nil_prefix

theorem toList_suffix (n : Nat) : (suffix n).toList = '_' :: Nat.toDigits 10 n := by
  simp [suffix]

/-- The counter can be read off an alias. -/
theorem candidate_inj {maxLength : Nat} {wanted : String} {m n : Nat}
    (h : candidate maxLength wanted m = candidate maxLength wanted n) : m = n := by
  have hlist := congrArg String.toList h
  simp only [candidate, String.toList_append, toList_suffix] at hlist
  exact toDigits_inj (tail_eq_of_append_eq Nat.underscore_not_in_toDigits
    Nat.underscore_not_in_toDigits hlist)

/-- The counter that is found is the first that gives a free alias. -/
theorem counter_firstFree (maxLength : Nat) (used : List String) (wanted : String) :
    FirstFree (candidate maxLength wanted) used (counter maxLength used wanted) := by
  obtain ⟨n, hn, hfirst⟩ := find?_firstFree (candidate maxLength wanted) used
    fun _ _ _ _ h => candidate_inj h
  have hcounter : counter maxLength used wanted = n := by
    have htest : (fun n => !used.contains (candidate maxLength wanted n)) =
        fun n => decide (candidate maxLength wanted n ∉ used) := by
      funext n
      simp
    rw [counter, htest, hn, Option.getD_some]
  rw [hcounter]
  exact hfirst

end FreshAlias

/-- What stands in front of a character that the mark lacks begins with the mark if the whole does. -/
theorem prefix_of_prefix_append {mark front rest : List Char} {c : Char} (hc : c ∉ mark)
    (h : mark <+: front ++ c :: rest) : mark <+: front := by
  rcases List.prefix_or_prefix_of_prefix h (List.prefix_append front (c :: rest)) with hfront | hfront
  · exact hfront
  · rcases hfront with ⟨more, rfl⟩
    cases more with
    | nil => simp
    | cons d more =>
      have hmore := (List.prefix_append_right_inj front).1 h
      have hd : d = c := (List.cons_prefix_cons.1 hmore).1
      exact absurd (List.mem_append_right front (hd ▸ List.mem_cons_self)) hc

/-- A fresh alias only begins with a mark without underscores if the wanted one does. -/
theorem prefix_of_prefix_freshAlias {mark : List Char} (hmark : '_' ∉ mark) {maxLength : Nat}
    {used : List String} {wanted : String} (h : mark <+: (freshAlias maxLength used wanted).toList) :
    mark <+: wanted.toList := by
  unfold freshAlias at h
  split at h
  · exact h
  · rw [FreshAlias.candidate, String.toList_append, FreshAlias.toList_suffix,
      String.toList_ofList] at h
    exact (prefix_of_prefix_append hmark h).trans (FreshAlias.takeBytes_prefix _ _)

/-- A fresh alias is not in use. -/
theorem freshAlias_notMem (maxLength : Nat) (used : List String) (wanted : String) :
    freshAlias maxLength used wanted ∉ used := by
  unfold freshAlias
  split
  · rename_i hfits
    exact hfits.2
  · exact (FreshAlias.counter_firstFree maxLength used wanted).free

end DocQuery
