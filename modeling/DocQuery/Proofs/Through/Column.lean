import DocQuery.Proofs.Build.Mirror

namespace DocQuery

/-! # Columns behind through relations

A through relation stands for its two hops. A column behind it is the column behind the hops: it
exists and may be reached when the other does, and wherever the one is joined the other is, in the
same table.

* `runs_followPath_through_iff`: following a through relation is following its hops, and a bridge to
  the second.
* `Twins.runs_followPath_hops`: so on twins the relation may be followed on one side and its hops on
  the other.
-/

open Build Draft

variable {s : Schema} {k m n : Model s} {name : String} {first second : Relation s} {path : List String}

/-! ## Through relations -/

/-- The model's relation `name` goes over its relation `first` to the relation `second` of that
one's target. None of the three is hidden from queries. -/
structure Model.GoesOver (m : Model s) (name : String) (first second : Relation s) : Prop where
  found : ∃ definition, m.relation? name = some (.through name m definition first second)
  shown : name ∉ m.definition.hidden
  first_shown : first.name ∉ m.definition.hidden
  second_shown : second.name ∉ first.target.definition.hidden

/-- Behind the path from the model, the relation `name` goes over `hop` and `hop'`. -/
def Model.GoesOverBehind (k : Model s) (path : List String) (name hop hop' : String) : Prop :=
  ∀ m, OpenPath k path m →
    ∃ first second, first.name = hop ∧ second.name = hop' ∧ m.GoesOver name first second

namespace Model.GoesOver

theorem of_hops? {r : Relation s} (hfound : m.relation? name = some r)
    (hhops : r.hops? = some (first, second)) (shown : m.isProtected name = false)
    (first_shown : m.isProtected first.name = false)
    (second_shown : first.target.isProtected second.name = false) : m.GoesOver name first second := by
  rcases Model.relation?_resolved hfound with ⟨_, howner, hname⟩
  -- only a through relation has hops
  cases r with
  | direct name owner definition link target => cases hhops
  | through name owner definition first second =>
    cases hhops
    cases howner
    cases hname
    exact ⟨⟨definition, hfound⟩, Column.isProtected_eq_false_iff.1 shown,
      Column.isProtected_eq_false_iff.1 first_shown, Column.isProtected_eq_false_iff.1 second_shown⟩

theorem resolved (h : m.GoesOver name first second) :
    ∃ definition, (Relation.through name m definition first second).Resolved := by
  rcases h.found with ⟨definition, hfound⟩
  exact ⟨definition, (Model.relation?_resolved hfound).1⟩

/-- The hops are relations of the models that they start from. -/
theorem hops_found (h : m.GoesOver name first second) :
    m.relation? first.name = some first ∧ first.target.relation? second.name = some second := by
  rcases h.resolved with ⟨definition, hr⟩
  cases hr with
  | through found first_owner second_owner first_resolved second_resolved =>
    exact ⟨first_owner ▸ first_resolved.found, second_owner ▸ second_resolved.found⟩

theorem hops_joinsAlike (h : m.GoesOver name first second) : JoinsAlike first ∧ JoinsAlike second := by
  rcases h.hops_found with ⟨hfirst, hsecond⟩
  exact ⟨joinsAlike (Model.relation?_resolved hfirst).1, joinsAlike (Model.relation?_resolved hsecond).1⟩

/-- Behind an open path, the path over the relation is open, and so is that over its hops. -/
theorem openPath (h : m.GoesOver name first second) (hopen : OpenPath k path m) :
    OpenPath k (path ++ [name]) second.target ∧
      OpenPath k (path ++ [first.name, second.name]) second.target := by
  rcases h.found with ⟨definition, hfound⟩
  rcases h.hops_found with ⟨hfirst, hsecond⟩
  refine ⟨hopen.append (.step h.shown hfound (.here _)), hopen.append ?_⟩
  exact .step h.first_shown hfirst (.step h.second_shown hsecond (.here _))

end Model.GoesOver

/-! ## Following the hops -/

namespace Draft

variable {d d' e : Draft s} {table : TablePath}

/-- The path over the hops is followed by joining the hops one below the other. -/
theorem runs_followPath_hops_iff (hopen : OpenPath k path m) (h : m.GoesOver name first second) :
    (followPath table k (path ++ [first.name, second.name])).Runs d () e ↔
      ∃ d₁ d₂, (followPath table k path).Runs d () d₁ ∧
        (join first ((table.join path).child (.relation first.name))).Runs d₁ () d₂ ∧
        (join second (((table.join path).child (.relation first.name)).child
          (.relation second.name))).Runs d₂ () e := by
  rcases h.hops_found with ⟨hfirst, hsecond⟩
  have hone : OpenPath m [first.name] first.target := .step h.first_shown hfirst (.here _)
  have hsplit : [first.name, second.name] = [first.name] ++ [second.name] := rfl
  simp only [runs_followPath_append hopen, hsplit, runs_followPath_append hone,
    runs_followPath_singleton hfirst, runs_followPath_singleton hsecond, TablePath.join_singleton]
  constructor
  · rintro ⟨d₁, hpath, d₂, hfirst, hsecond⟩
    exact ⟨d₁, d₂, hpath, hfirst, hsecond⟩
  · rintro ⟨d₁, d₂, hpath, hfirst, hsecond⟩
    exact ⟨d₁, hpath, d₂, hfirst, hsecond⟩

/-- The path over the through relation is followed by joining the hops as well, and letting the
relation's own path stand for the table of the second. -/
theorem runs_followPath_through_iff (hopen : OpenPath k path m) (h : m.GoesOver name first second)
    (hd : d.Ready table k) (hb : d.Bridged) :
    (followPath table k (path ++ [name])).Runs d () e ↔
      ∃ d₁ d₂ d₃ a, (followPath table k path).Runs d () d₁ ∧
        (join first ((table.join path).child (.relation first.name))).Runs d₁ () d₂ ∧
        (join second (((table.join path).child (.relation first.name)).child
          (.relation second.name))).Runs d₂ () d₃ ∧
        d₃.Spans ((table.join path).child (.relation name)) a second.target ∧
        e = d₃.bridge ((table.join path).child (.relation name)) a second.target := by
  rcases h.found with ⟨definition, hfound⟩
  have hr := (Model.relation?_resolved hfound).1
  -- the path before leaves a draft on which the relation can be joined
  have hthrough : ∀ {d₁ : Draft s}, (followPath table k path).Runs d () d₁ →
      d₁.Ready (table.join path) m ∧ d₁.Bridged := by
    intro d₁ hpath
    rcases hd.follow hopen hpath with ⟨hready, hgrows⟩
    exact ⟨hready, hgrows.bridged hd.tidy hb⟩
  rw [runs_followPath_append hopen]
  simp only [runs_followPath_singleton hfound]
  constructor
  · rintro ⟨d₁, hpath, hjoin⟩
    rcases hthrough hpath with ⟨hready, hbridged⟩
    rcases (hready.runs_join_through_iff hbridged hr).1 hjoin with
        ⟨d₂, d₃, a, hfirst, hsecond, hspans, he⟩
    exact ⟨d₁, d₂, d₃, a, hpath, hfirst, hsecond, hspans, he⟩
  · rintro ⟨d₁, d₂, d₃, a, hpath, hfirst, hsecond, hspans, he⟩
    rcases hthrough hpath with ⟨hready, hbridged⟩
    exact ⟨d₁, hpath, (hready.runs_join_through_iff hbridged hr).2
      ⟨d₂, d₃, a, hfirst, hsecond, hspans, he⟩⟩

/-- Behind the hops, the path of the through relation and that of the second hop have one alias, if
it is joined. -/
theorem Spans.aliasAt?_hops {a : String} (h : m.GoesOver name first second)
    (htyped : d.modelAt? (table.join path) = some m)
    (hspans : d.Spans ((table.join path).child (.relation name)) a second.target) :
    d.aliasAt? (table.join (path ++ [first.name, second.name])) = some a := by
  rcases h.found with ⟨definition, hfound⟩
  rcases hspans.found htyped hfound with ⟨_, _, _, hthrough, _, _, hnamed⟩
  cases hthrough
  rw [TablePath.join_append, TablePath.join_cons, TablePath.join_singleton]
  exact hnamed

/-- Where the path over a through relation is followed, the path over its hops is on drafts alike,
to the same table. -/
theorem Twins.runs_followPath_hops (ht : Twins table k d d') (hopen : OpenPath k path m)
    (h : m.GoesOver name first second) (hrun : (followPath table k (path ++ [name])).Runs d () e) :
    ∃ e', (followPath table k (path ++ [first.name, second.name])).Runs d' () e' ∧
      GrowAlike d d' e e' ∧ ∃ a, e.aliasAt? (table.join (path ++ [name])) = some a ∧
        e'.aliasAt? (table.join (path ++ [first.name, second.name])) = some a := by
  rcases h.resolved with ⟨definition, hr⟩
  rcases h.hops_joinsAlike with ⟨halikeFirst, halikeSecond⟩
  rcases ht.ready.follow (h.openPath hopen).1 hrun with ⟨hend, hgrows⟩
  have hgrown := hgrows.grown ht.ready.tidy ht.bridged
  rcases (runs_followPath_through_iff hopen h ht.ready ht.bridged).1 hrun with
      ⟨d₁, d₂, d₃, a, hpath, hfirst, hsecond, hspans, rfl⟩
  rcases ht.runs_followPath hopen hpath with ⟨d₁', hpath', hgrow, hinner⟩
  rcases hinner.runs_hops hr halikeFirst halikeSecond hfirst hsecond hspans with
      ⟨d₂', d₃', hfirst', hsecond', hgrow', hspans'⟩
  -- the relation's side ends with a bridge that the hops' side does not need
  have hboth := hgrow.trans hgrow'
  refine ⟨d₃', (runs_followPath_hops_iff hopen h).2 ⟨d₁', d₂', hpath', hfirst', hsecond'⟩,
    ⟨hboth.alike.bridge_left hboth.grown.tidy hspans hspans', hgrown, hboth.grown'⟩, a, ?_, ?_⟩
  · rw [TablePath.join_append, TablePath.join_singleton] at hend ⊢
    exact hgrown.bridged.aliasAt?_eq (hspans.bridge hboth.grown.tidy) hend.mem
  · exact Spans.aliasAt?_hops h (hgrow'.twins hinner).ready'.typed hspans'

/-- Where the path over the hops is followed, the path over the through relation is on drafts alike,
to the same table. -/
theorem Twins.runs_followPath_through (ht : Twins table k d d') (hopen : OpenPath k path m)
    (h : m.GoesOver name first second)
    (hrun : (followPath table k (path ++ [first.name, second.name])).Runs d () e) :
    ∃ e', (followPath table k (path ++ [name])).Runs d' () e' ∧ GrowAlike d d' e e' ∧
      ∃ a, e.aliasAt? (table.join (path ++ [first.name, second.name])) = some a ∧
        e'.aliasAt? (table.join (path ++ [name])) = some a := by
  rcases h.resolved with ⟨definition, hr⟩
  rcases h.hops_joinsAlike with ⟨halikeFirst, halikeSecond⟩
  rcases (runs_followPath_hops_iff hopen h).1 hrun with ⟨d₁, d₂, hpath, hfirst, hsecond⟩
  rcases ht.runs_followPath hopen hpath with ⟨d₁', hpath', hgrow, hinner⟩
  rcases (hinner.ready.runs_hops hr hfirst hsecond).spans with ⟨a, hspans⟩
  rcases hinner.runs_hops hr halikeFirst halikeSecond hfirst hsecond hspans with
      ⟨d₂', d₃', hfirst', hsecond', hgrow', hspans'⟩
  have hboth := hgrow.trans hgrow'
  -- the bridge is built over the hops that this side has followed
  have hrun' := (runs_followPath_through_iff hopen h ht.ready' ht.bridged').2
    ⟨d₁', d₂', d₃', a, hpath', hfirst', hsecond', hspans', rfl⟩
  rcases ht.ready'.follow (h.openPath hopen).1 hrun' with ⟨hend, hgrows⟩
  have hgrown := hgrows.grown ht.ready'.tidy ht.bridged'
  have halike := (hboth.symm.alike.bridge_left hboth.grown'.tidy hspans' hspans).symm
  refine ⟨_, hrun', ⟨halike, hboth.grown, hgrown⟩, a, ?_, ?_⟩
  · exact Spans.aliasAt?_hops h (hgrow'.twins hinner).ready.typed hspans
  · rw [TablePath.join_append, TablePath.join_singleton] at hend ⊢
    exact hgrown.bridged.aliasAt?_eq (hspans'.bridge hboth.grown'.tidy) hend.mem

end Draft

/-! ## Columns -/

namespace Column

/-- The second column can stand for the first in a test: where the first may be reached, the second
is found in the same table and compared in the same way. -/
def StandsFor (m : Model s) (c' c : Column s) : Prop :=
  c.LeadsToColumn m → SameTable m c c' ∧ c'.isChronological = c.isChronological

theorem StandsFor.refl (m : Model s) (c : Column s) : StandsFor m c c :=
  fun hc => ⟨.refl hc, rfl⟩

/-- Paths to one model lead to the same columns of it. -/
theorem LeadsToColumn.of_openPath {path' : List String} {last : Option String}
    (h : LeadsToColumn k ⟨k, path, last⟩) (hopen : OpenPath k path n) (hopen' : OpenPath k path' n) :
    LeadsToColumn k ⟨k, path', last⟩ ∧
      isChronological ⟨k, path', last⟩ = isChronological ⟨k, path, last⟩ := by
  rcases h with ⟨_, n', column, hpath, hname, hshown⟩
  cases hopen.unique hpath
  refine ⟨⟨rfl, n, column, hopen', hname, hshown⟩, ?_⟩
  simp only [isChronological, terminal?, hopen.walk_eq, hopen'.walk_eq]

/-- What a column behind a path can be reached over. -/
theorem LeadsToColumn.openPath_front {rest : List String} {last : Option String}
    (h : LeadsToColumn k ⟨k, path ++ rest, last⟩) : ∃ m, OpenPath k path m := by
  rcases h with ⟨_, n, _, hpath, _⟩
  rcases hpath.of_append with ⟨m, hopen, _⟩
  exact ⟨m, hopen⟩

variable {hop hop' : String} {last : Option String}

/-- A column behind the hops can stand for the column behind the through relation. -/
theorem standsFor_hops (h : k.GoesOverBehind path name hop hop') :
    StandsFor k ⟨k, path ++ [hop, hop'], last⟩ ⟨k, path ++ [name], last⟩ := by
  intro hc
  rcases hc.openPath_front with ⟨m, hopen⟩
  rcases h m hopen with ⟨first, second, rfl, rfl, hover⟩
  rcases hover.openPath hopen with ⟨hthrough, hhops⟩
  rcases hc.of_openPath hthrough hhops with ⟨hc', hchronological⟩
  exact ⟨⟨hc, hc', rfl, fun _ _ _ _ ht hrun => ht.runs_followPath_hops hopen hover hrun⟩,
    hchronological⟩

/-- A column behind the through relation can stand for the column behind the hops. -/
theorem standsFor_through (h : k.GoesOverBehind path name hop hop') :
    StandsFor k ⟨k, path ++ [name], last⟩ ⟨k, path ++ [hop, hop'], last⟩ := by
  intro hc
  rcases hc.openPath_front with ⟨m, hopen⟩
  rcases h m hopen with ⟨first, second, rfl, rfl, hover⟩
  rcases hover.openPath hopen with ⟨hthrough, hhops⟩
  rcases hc.of_openPath hhops hthrough with ⟨hc', hchronological⟩
  exact ⟨⟨hc, hc', rfl, fun _ _ _ _ ht hrun => ht.runs_followPath_through hopen hover hrun⟩,
    hchronological⟩

end Column

end DocQuery
