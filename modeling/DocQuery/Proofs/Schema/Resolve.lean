import DocQuery.Schema.Model

namespace DocQuery

/-! # Resolved relations

A relation that a model resolves knows its owner and its name, and the hops of a through relation
are resolved in their turn: the first on the owner, the second on the target of the first.

* `relation?_resolved`: a relation that a model resolves is resolved throughout.
* `Resolved.found`: and it is found again on its owner under its name.
* `Resolved.lead_found`: so is each relation that it leads over.
-/

variable {s : Schema}

theorem Schema.name_of_model? {name : String} {m : Model s} (h : s.model? name = some m) :
    m.name = name := by
  unfold model? at h
  split at h
  · cases h
    rfl
  · cases h

/-- The relation is the one that its owner has under its name, and so are its hops. -/
inductive Relation.Resolved : Relation s → Prop where
  | direct {name : String} {owner : Model s} {definition : RelationDefinition} {link : Link}
      {target : Model s}
      (found : owner.relation? name = some (.direct name owner definition link target)) :
      Resolved (.direct name owner definition link target)
  | through {name : String} {owner : Model s} {definition : RelationDefinition}
      {first second : Relation s}
      (found : owner.relation? name = some (.through name owner definition first second))
      (first_owner : first.owner = owner) (second_owner : second.owner = first.target)
      (first_resolved : first.Resolved) (second_resolved : second.Resolved) :
      Resolved (.through name owner definition first second)

namespace Model

/-- What is resolved with some fuel is resolved with more. -/
theorem resolve_succ {fuel : Nat} {m : Model s} {name : String} {r : Relation s}
    (h : resolve fuel m name = some r) : resolve (fuel + 1) m name = some r := by
  induction fuel generalizing m name r with
  | zero => cases h
  | succ fuel ih =>
    unfold resolve at h ⊢
    -- · exact h what is resolved without its parts needs no fuel, and both hops resolve with more
    split at h
    · cases h
    · split at h
      · exact h
      · simp only [bind, Option.bind_eq_some_iff] at h ⊢
        rcases h with ⟨through, hthrough, first, hfirst, source, hsource, second, hsecond, h⟩
        exact ⟨through, hthrough, first, ih hfirst, source, hsource, second, ih hsecond, h⟩

theorem resolve_mono {fuel more : Nat} (hle : fuel ≤ more) {m : Model s} {name : String}
    {r : Relation s} (h : resolve fuel m name = some r) : resolve more m name = some r := by
  induction hle with
  | refl => exact h
  | step _ ih => exact resolve_succ ih

theorem resolve_resolved {fuel : Nat} (hfuel : fuel ≤ s.relationCount + 1) {m : Model s}
    {name : String} {r : Relation s} (h : resolve fuel m name = some r) :
    r.Resolved ∧ r.owner = m ∧ r.name = name := by
  induction fuel generalizing m name r with
  | zero => cases h
  | succ fuel ih =>
    -- the fuel is at most that of `relation?`, which therefore finds the same
    have hfound : m.relation? name = some r := resolve_mono hfuel h
    unfold resolve at h
    split at h
    · cases h
    · split at h
      · simp only [bind, Option.bind_eq_some_iff, Option.some.injEq] at h
        rcases h with ⟨_, _, target, _, rfl⟩
        exact ⟨.direct hfound, rfl, rfl⟩
      · simp only [bind, Option.bind_eq_some_iff, Option.some.injEq] at h
        rcases h with ⟨through, _, first, hfirst, source, _, second, hsecond, rfl⟩
        rcases ih (by omega) hfirst with ⟨hfirst, hfirstOwner, _⟩
        rcases ih (by omega) hsecond with ⟨hsecond, hsecondOwner, _⟩
        exact ⟨.through hfound hfirstOwner hsecondOwner hfirst hsecond, rfl, rfl⟩

/-- A relation of a model is resolved and knows its model and its name. -/
theorem relation?_resolved {m : Model s} {name : String} {r : Relation s}
    (h : m.relation? name = some r) : r.Resolved ∧ r.owner = m ∧ r.name = name :=
  resolve_resolved (Nat.le_refl _) h

/-- A resolved relation has the definition that its model declares. -/
theorem declared_of_relation? {m : Model s} {name : String} {r : Relation s}
    (h : m.relation? name = some r) : m.definition.relations.find? name = some r.definition := by
  unfold relation? resolve at h
  split at h
  · cases h
  · rename_i definition hfind
    split at h
    · simp only [bind, Option.bind_eq_some_iff, Option.some.injEq] at h
      rcases h with ⟨_, _, _, _, rfl⟩
      exact hfind
    · simp only [bind, Option.bind_eq_some_iff, Option.some.injEq] at h
      rcases h with ⟨_, _, _, _, _, _, _, _, rfl⟩
      exact hfind

/-- A direct relation has the link of its definition and leads to the model that it names. -/
theorem direct_of_relation? {m owner target : Model s} {name name' : String}
    {definition : RelationDefinition} {link : Link}
    (h : m.relation? name = some (.direct name' owner definition link target)) :
    definition.link? name m.table = some link ∧
      ∃ leads, definition.target = some leads ∧ s.model? leads = some target := by
  unfold relation? resolve at h
  split at h
  · cases h
  · split at h
    · rename_i hlink
      simp only [bind, Option.bind_eq_some_iff, Option.some.injEq] at h
      rcases h with ⟨leads, hleads, behind, hbehind, heq⟩
      cases heq
      exact ⟨hlink, leads, hleads, hbehind⟩
    · -- a through relation is not direct
      simp only [bind, Option.bind_eq_some_iff, Option.some.injEq] at h
      rcases h with ⟨_, _, _, _, _, _, _, _, heq⟩
      cases heq

/-- A direct relation has the link of its definition. -/
theorem link_of_relation? {m owner target : Model s} {name name' : String}
    {definition : RelationDefinition} {link : Link}
    (h : m.relation? name = some (.direct name' owner definition link target)) :
    definition.link? name m.table = some link :=
  (direct_of_relation? h).1

end Model

namespace Relation

theorem Resolved.found {r : Relation s} (h : r.Resolved) : r.owner.relation? r.name = some r := by
  cases h with
  | direct found => exact found
  | through found => exact found

/-- The relation and the first hops inside it, all of one owner: joining the relation below a table
joins each of these right below that table. -/
def leads : Relation s → List (Relation s)
  | direct name owner definition link target => [direct name owner definition link target]
  | through name owner definition first second =>
    through name owner definition first second :: first.leads

theorem sizeOf_le_of_mem_leads {r lead : Relation s} (h : lead ∈ r.leads) :
    sizeOf lead ≤ sizeOf r := by
  induction r with
  | direct name owner definition link target =>
    rw [leads, List.mem_singleton] at h
    exact Nat.le_of_eq (congrArg sizeOf h)
  | through name owner definition first second ihFirst _ =>
    rw [leads, List.mem_cons] at h
    rcases h with rfl | h
    · exact Nat.le_refl _
    · -- what the first hop leads over is no larger than the hop
      have hle := ihFirst h
      simp only [through.sizeOf_spec]
      omega

/-- The leads are what the owner resolves under their names. -/
theorem Resolved.lead_found {r lead : Relation s} (h : r.Resolved) (hlead : lead ∈ r.leads) :
    r.owner.relation? lead.name = some lead := by
  induction h with
  | direct found =>
    rw [leads, List.mem_singleton] at hlead
    subst hlead
    exact found
  | through found hfirst _ _ _ ihFirst _ =>
    rw [leads, List.mem_cons] at hlead
    rcases hlead with rfl | hlead
    · exact found
    · rw [hfirst] at ihFirst
      exact ihFirst hlead

/-- No first hop inside a through relation has the relation's own name: the relation would be inside
itself. -/
theorem Resolved.name_notMem_leads {name : String} {owner : Model s}
    {definition : RelationDefinition} {first second : Relation s}
    (h : (Relation.through name owner definition first second).Resolved) {lead : Relation s}
    (hlead : lead ∈ first.leads) : lead.name ≠ name := by
  intro hname
  have hfound : owner.relation? lead.name = some lead :=
    h.lead_found (List.mem_cons_of_mem _ hlead)
  have hself : owner.relation? name = some (.through name owner definition first second) := h.found
  rw [hname, hself] at hfound
  -- the lead would be the through relation, which is larger than all inside it
  have hle := sizeOf_le_of_mem_leads hlead
  rw [← Option.some.inj hfound, Relation.through.sizeOf_spec] at hle
  omega

end Relation

end DocQuery
