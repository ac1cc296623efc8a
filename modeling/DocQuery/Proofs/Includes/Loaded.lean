import DocQuery.Proofs.Events.Traces
import DocQuery.Proofs.Includes.Tree

namespace DocQuery

/-! # What a plan loads

The nodes of a plan's tree of includes are the prefixes of the paths that were loaded, and these are
the paths of the spots that a build's events load, with the relations on the way to them.

* `Traces.loads`: what a build loads are the spots of its events and what stands on the way.
* `Compiles.isSome_find?_includes`: the nodes of the plan's tree are the prefixes of what was asked
  for.
-/

open Draft

variable {s : Schema}

/-! ## Loaded paths -/

namespace Draft

variable {d e : Draft s} {events : List (Event s)}

theorem mem_addInclude {path added : TablePath} :
    path ∈ (d.addInclude added).includes ↔ path ∈ d.includes ∨ path = added := by
  unfold addInclude
  split
  · rename_i hmem
    refine ⟨.inl, ?_⟩
    rintro (h | rfl)
    · exact h
    · exact hmem
  · rw [List.mem_append, List.mem_singleton]

theorem mem_foldl_addInclude {path : TablePath} {paths : List TablePath} :
    path ∈ (paths.foldl addInclude d).includes ↔ path ∈ d.includes ∨ path ∈ paths := by
  induction paths generalizing d with
  | nil => simp
  | cons added paths ih => rw [List.foldl_cons, ih, mem_addInclude, or_assoc, List.mem_cons]

/-- The spots of the events are loaded, and besides them only what is on the way to them. -/
structure Loads (events : List (Event s)) (d e : Draft s) : Prop where
  kept : ∀ path ∈ d.includes, path ∈ e.includes
  loaded : ∀ spot : Spot, .load spot ∈ events → spot.table ∈ e.includes
  only : ∀ path ∈ e.includes, path ∈ d.includes ∨
    ∃ spot : Spot, .load spot ∈ events ∧ path.relationNames <+: spot.table.relationNames

theorem Loads.of_same (hincludes : e.includes = d.includes)
    (hnone : ∀ spot : Spot, .load spot ∉ events) : Loads events d e where
  kept := fun _ hpath => hincludes ▸ hpath
  loaded := fun spot hspot => absurd hspot (hnone spot)
  only := fun _ hpath => .inl (hincludes ▸ hpath)

theorem Traces.loads (h : Traces events d e) : Loads events d e := by
  induction h with
  | quiet h => exact .of_same h.includes fun _ => List.not_mem_nil
  | trans _ _ ihFirst ihSecond =>
    refine ⟨fun path hpath => ihSecond.kept path (ihFirst.kept path hpath), fun spot hspot => ?_,
      fun path hpath => ?_⟩
    · rcases List.mem_append.1 hspot with hspot | hspot
      · exact ihSecond.kept _ (ihFirst.loaded spot hspot)
      · exact ihSecond.loaded spot hspot
    · rcases ihSecond.only path hpath with hpath | ⟨spot, hspot, hway⟩
      · rcases ihFirst.only path hpath with hpath | ⟨spot, hspot, hway⟩
        · exact .inl hpath
        · exact .inr ⟨spot, List.mem_append_left _ hspot, hway⟩
      · exact .inr ⟨spot, List.mem_append_right _ hspot, hway⟩
  -- a spot is loaded after the relations on the way to it
  | @load d spot paths onTheWay =>
    refine ⟨fun path hpath => ?_, fun other hother => ?_, fun path hpath => ?_⟩
    · exact mem_addInclude.2 (.inl (mem_foldl_addInclude.2 (.inl hpath)))
    · cases List.mem_singleton.1 hother
      exact mem_addInclude.2 (.inr rfl)
    · rcases mem_addInclude.1 hpath with hpath | rfl
      · rcases mem_foldl_addInclude.1 hpath with hpath | hpath
        · exact .inl hpath
        · exact .inr ⟨spot, List.mem_singleton_self _, onTheWay path hpath⟩
      · exact .inr ⟨spot, List.mem_singleton_self _, List.prefix_refl _⟩
  | @list d c undotted =>
    have hincludes : (d.addSelect (.column c)).includes = d.includes := by
      unfold addSelect
      dsimp only
      split <;> rfl
    exact .of_same hincludes fun spot => by simp
  | embed account inside correlates => exact .of_same rfl fun spot => by simp

end Draft

theorem Statement.includes_toPlan (quoted : Bool) (statement : Statement) :
    (statement.toPlan quoted).includes = statement.includes := by
  cases statement
  rw [Statement.toPlan]

namespace Query

variable {model : String} {query : Json} {config : Config} {root : Model s}
  {conditions : List (Condition s)} {done : Draft s} {plan : Plan} {names : List String}

/-- The nodes of a plan's tree are those on the way to the rows of a relation that is asked for
outside of sub-queries. -/
theorem Compiles.isSome_find?_includes
    (h : Compiles s model query config root conditions done plan) :
    (plan.includes.find? names).isSome ↔ names = [] ∨ ∃ r ∈ Condition.requests root conditions,
      r.inSubquery = false ∧ names <+: r.table.relationNames := by
  have hloads := h.traces.loads
  have hincludes : plan.includes = .ofPaths (done.includes.map TablePath.relationNames) := by
    rw [h.plan_eq, Statement.includes_toPlan]
    rfl
  rw [hincludes, IncludeTree.isSome_find?_ofPaths]
  refine or_congr_right ⟨?_, ?_⟩
  · -- requests inside sub-queries are not among the events of the draft
    rintro ⟨_, hpath, hfront⟩
    rcases List.mem_map.1 hpath with ⟨path, hmem, rfl⟩
    rcases hloads.only path hmem with hnone | ⟨spot, hspot, hway⟩
    · cases hnone
    · exact ⟨⟨spot, false⟩, Event.mem_requests_iff.2 hspot, rfl, hfront.trans hway⟩
  · rintro ⟨⟨spot, inSubquery⟩, hrequest, hkept, hfront⟩
    cases hkept
    have hspot := Event.mem_requests_iff.1 hrequest
    exact ⟨_, List.mem_map_of_mem (hloads.loaded spot hspot), hfront⟩

end Query

end DocQuery
