import DocQuery.Draft.Join
import DocQuery.Proofs.Draft.Fresh

namespace DocQuery

/-! # Paths of derived tables

A derived table stands at the first free path of its relation. Only derived tables can be in the
way, so the path is settled by those that have been joined before.
-/

namespace Draft

variable {s : Schema}

theorem derivedCandidate_inj {table : TablePath} {relation : String} {m n : Nat}
    (h : derivedCandidate table relation m = derivedCandidate table relation n) : m = n := by
  have hname : (if m = 1 then relation else relation ++ "_" ++ toString m) =
      if n = 1 then relation else relation ++ "_" ++ toString n := by
    simpa [derivedCandidate] using (TablePath.child_inj.1 h).2
  by_cases hm : m = 1
  · by_cases hn : n = 1
    · rw [hm, hn]
    · -- a name with a counter is longer than one without
      rw [if_pos hm, if_neg hn] at hname
      have hlength := congrArg String.length hname
      simp only [String.length_append] at hlength
      have hone : "_".length = 1 := rfl
      omega
  · by_cases hn : n = 1
    · rw [if_neg hm, if_pos hn] at hname
      have hlength := congrArg String.length hname
      simp only [String.length_append] at hlength
      have hone : "_".length = 1 := rfl
      omega
    · rw [if_neg hm, if_neg hn] at hname
      have hlist := congrArg String.toList hname
      simp only [String.toList_append] at hlist
      exact toString_inj (String.toList_inj.1 (List.append_cancel_left hlist))

/-- The first free path of a relation below `table`, where `claimed` are the paths in use. -/
def freePath (claimed : List TablePath) (table : TablePath) (relation : String) : TablePath :=
  derivedCandidate table relation (((List.range' 1 (claimed.length + 1)).find? fun n =>
    derivedCandidate table relation n ∉ claimed).getD 1)

theorem freePath_firstFree (claimed : List TablePath) (table : TablePath) (relation : String) :
    ∃ n, freePath claimed table relation = derivedCandidate table relation n ∧
      FirstFree (derivedCandidate table relation) claimed n := by
  obtain ⟨n, hn, hfirst⟩ := find?_firstFree (derivedCandidate table relation) claimed
    fun _ _ _ _ h => derivedCandidate_inj h
  exact ⟨n, by rw [freePath, hn, Option.getD_some], hfirst⟩

theorem derivedPath_eq_freePath (d : Draft s) (table : TablePath) (relation : String) :
    derivedPath d table relation = freePath d.joined table relation := by
  obtain ⟨n, hn, _⟩ := find?_firstFree (derivedCandidate table relation) d.joined
    fun _ _ _ _ h => derivedCandidate_inj h
  -- the draft asks for its first path that is not joined, and one is found
  have hfree : ((fun path => !d.isJoined path) ∘ derivedCandidate table relation) =
      fun n => decide (derivedCandidate table relation n ∉ d.joined) := by
    funext n
    simp [isJoined]
  simp only [derivedPath, freePath, List.find?_map, hfree, hn, Option.map_some, Option.getD_some]

/-- Which paths of the relation are in use settles the free one. -/
theorem freePath_congr {claimed claimed' : List TablePath} {table : TablePath} {relation : String}
    (h : ∀ name, table.child (.derived name) ∈ claimed ↔ table.child (.derived name) ∈ claimed') :
    freePath claimed table relation = freePath claimed' table relation := by
  rcases freePath_firstFree claimed table relation with ⟨m, hm, hfirst⟩
  rcases freePath_firstFree claimed' table relation with ⟨n, hn, hfirst'⟩
  rw [hm, hn, hfirst.unique hfirst' fun k => h _]

/-- The path of a new derived table is not joined yet. -/
theorem derivedPath_notMem (d : Draft s) (table : TablePath) (relation : String) :
    derivedPath d table relation ∉ d.joined := by
  rcases freePath_firstFree d.joined table relation with ⟨n, hn, hfirst⟩
  rw [derivedPath_eq_freePath, hn]
  exact hfirst.free

theorem derivedPath_eq_child (d : Draft s) (table : TablePath) (relation : String) :
    ∃ name, derivedPath d table relation = table.child (.derived name) := by
  rcases freePath_firstFree d.joined table relation with ⟨n, hn, _⟩
  rw [derivedPath_eq_freePath, hn]
  exact ⟨_, rfl⟩

end Draft

end DocQuery
