import DocQuery.Proofs.Build.Run

namespace DocQuery

/-! # Failing runs

`step.Fails d e` says that the step fails on the draft `d` with the error `e`. A compound step fails
where its first part fails, or where that succeeds and the rest fails on what it leaves, so the
lemmas here lead a failure back to the part that raised it.

* `fails_bind`: a compound step fails in its first part, or in the rest on what that leaves.
-/

namespace Build

variable {s : Schema} {α β : Type} {d d' : Draft s} {e : Error}

/-- The step fails on `d` with the error `e`. -/
def Fails (step : Build s α) (d : Draft s) (e : Error) : Prop :=
  ∃ d', step.runOn d = (.error e, d')

@[simp] theorem fails_pure {a : α} : ¬Build.Fails (pure a : Build s α) d e := by
  rintro ⟨d', h⟩
  cases h

@[simp] theorem fails_throw {raised : Error} :
    Build.Fails (throw raised : Build s α) d e ↔ raised = e := by
  constructor
  · rintro ⟨d', h⟩
    cases h
    rfl
  · rintro rfl
    exact ⟨d, rfl⟩

@[simp] theorem fails_get : ¬Build.Fails (get : Build s (Draft s)) d e := by
  rintro ⟨d', h⟩
  cases h

@[simp] theorem fails_modify {f : Draft s → Draft s} :
    ¬Build.Fails (modify f : Build s PUnit) d e := by
  rintro ⟨d', h⟩
  cases h

@[simp] theorem fails_modifyGet {f : Draft s → α × Draft s} :
    ¬Build.Fails (modifyGet f : Build s α) d e := by
  rintro ⟨d', h⟩
  cases h

/-- A compound step fails in its first part or behind it. -/
@[simp] theorem fails_bind {step : Build s α} {next : α → Build s β} :
    Build.Fails (step >>= next) d e ↔
      step.Fails d e ∨ ∃ a d', step.Runs d a d' ∧ (next a).Fails d' e := by
  unfold Fails Runs
  rw [runOn_bind]
  -- whether the first part raised decides which side is meant
  rcases step.runOn d with ⟨raised | a, d₁⟩
  · constructor
    · rintro ⟨d', h⟩
      cases h
      exact .inl ⟨d₁, rfl⟩
    · rintro (⟨d', h⟩ | ⟨a, d', h, _⟩)
      · cases h
        exact ⟨d₁, rfl⟩
      · cases h
  · constructor
    · intro h
      exact .inr ⟨a, d₁, rfl, h⟩
    · rintro (⟨d', h⟩ | ⟨a', d', h, hnext⟩)
      · cases h
      · cases h
        exact hnext

/-- A step on a draft of its own fails as it does there. -/
@[simp] theorem fails_within {sub : Draft s} {step : Build s α} :
    (Build.within sub step).Fails d e ↔ step.Fails sub e := by
  unfold within
  constructor
  · intro h
    cases hrun : step.runOn sub with
    | mk result sub' =>
      rw [hrun] at h
      -- an error of the inner step is raised on the outer draft
      cases result with
      | error raised =>
        rw [fails_throw.1 h] at hrun
        exact ⟨sub', hrun⟩
      | ok a => exact absurd h fails_pure
  · rintro ⟨sub', hrun⟩
    rw [hrun]
    exact fails_throw.2 rfl

end Build

end DocQuery
