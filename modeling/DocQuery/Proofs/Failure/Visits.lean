import DocQuery.Proofs.Document.Access
import DocQuery.Proofs.Failure.Opened

namespace DocQuery

/-! # Where a document fails

Reading a document visits its entries in order, and before it is done with an entry those of the
nested documents that the entry opens. The first entry that cannot be read decides the failure of
the document: it is wrapped with the nested documents around that entry, and with nothing else.

* `mem_visits_iff`: the visits of a document are exactly the entries that stand in it, at any depth.
* `localizes_ofFields`: reading a document succeeds if all its visits do, and otherwise fails with
  the first that does not.
* `failure_localized`: what the error of a failed document tells: the cause, and the documents
  around it.
-/

variable {s : Schema} {α β : Type}

/-- An entry of a document, at the place where the reading meets it. -/
structure Visit (s : Schema) where
  /-- The nested documents around the entry, outermost first, each with the model that it is read on. -/
  enclosures : List (Json × Model s)
  /-- The model that the entry is read on. -/
  model : Model s
  key : String
  value : Json

namespace Visit

/-- The entry read for itself. -/
def read (v : Visit s) : Except Error (Condition s) :=
  Condition.ofEntry v.model v.key v.value (Condition.readersOf v.value)

def Succeeds (v : Visit s) : Prop := ∃ c, v.read = .ok c

/-- The enclosing documents as a failure names them. -/
def documents (v : Visit s) : List (Json × String) := v.enclosures.map fun d => (d.1, d.2.name)

/-- The failure of the whole document if the entry fails for `cause`. -/
def failure (v : Visit s) (cause : Error) : Error := .wrap v.documents cause

/-- The visit seen from outside of one more document. -/
def inside (document : Json) (m : Model s) (v : Visit s) : Visit s :=
  { v with enclosures := (document, m) :: v.enclosures }

end Visit

namespace Condition

/-! ## Visits -/

mutual

/-- The visits to the entries of each of the documents in a value, on the model that the document is
read on. -/
def visitorsOf : Json → List (Model s → List (Visit s))
  | .array items => visitorsOfItems items
  | .object fields => [fun m => (visits fields m).map (Visit.inside (.object fields) m)]
  | _ => [fun _ => []]

/-- The visits to the entries of a nested document. -/
def visitorOf : Json → Model s → List (Visit s)
  | .object fields => fun m => (visits fields m).map (Visit.inside (.object fields) m)
  | _ => fun _ => []

def visitorsOfItems : List Json → List (Model s → List (Visit s))
  | [] => []
  | item :: items => visitorOf item :: visitorsOfItems items

/-- The visits to the entries of a document, in the order in which the reading is done with them: an
entry comes after those of the documents that it opens. -/
def visits : List (String × Json) → Model s → List (Visit s)
  | [] => fun _ => []
  | (key, value) :: fields => fun m =>
    (opened m key value (visitorsOf value)).flatMap (fun o => o.1 o.2) ++
      ⟨[], m, key, value⟩ :: visits fields m

end

theorem visitorsOfItems_eq_map (documents : List Json) :
    visitorsOfItems (s := s) documents = documents.map visitorOf := by
  induction documents with
  | nil => rfl
  | cons document documents ih => rw [visitorsOfItems, ih, List.map_cons]

theorem visitorsOf_eq_map (value : Json) :
    visitorsOf (s := s) value = (items value).map visitorOf := by
  cases value with
  | array documents => exact visitorsOfItems_eq_map documents
  | _ => rfl

/-- The visits to the documents that an entry opens, in order. -/
def visitsInside (m : Model s) (key : String) (value : Json) : List (Visit s) :=
  (opened m key value (items value)).flatMap fun o => visitorOf o.1 o.2

theorem visits_cons (key : String) (value : Json) (fields : List (String × Json)) (m : Model s) :
    visits ((key, value) :: fields) m
      = visitsInside m key value ++ ⟨[], m, key, value⟩ :: visits fields m := by
  rw [visits]
  dsimp only
  rw [visitorsOf_eq_map, opened_map, List.flatMap_map, visitsInside]

/-! ## Where an entry stands -/

/-- The entry stands in the document or in one that an entry of it opens, and so on inwards. The
enclosures are these documents. -/
inductive Stands : List (String × Json) → Model s → Visit s → Prop where
  | here {fields : List (String × Json)} {m : Model s} {key : String} {value : Json}
      (entry : (key, value) ∈ fields) : Stands fields m ⟨[], m, key, value⟩
  | inside {fields inner : List (String × Json)} {m target : Model s} {key : String} {value : Json}
      {v : Visit s} (entry : (key, value) ∈ fields)
      (opened : (.object inner, target) ∈ opened m key value (items value))
      (rest : Stands inner target v) : Stands fields m (v.inside (.object inner) target)

theorem mem_of_mem_opened {δ : Type} {m : Model s} {text : String} {value : Json}
    {documents : List δ} {o : δ × Model s} (h : o ∈ opened m text value documents) :
    o.1 ∈ documents := by
  unfold opened at h
  split at h
  · cases h
  · split at h
    · cases h
    · -- relation joins open all their documents, a derived table its first, a selection what is in
      -- its array
      unfold openedBy at h
      split at h
      · exact mem_of_mem_openedOver h
      · split at h
        · exact List.mem_of_mem_take (mem_of_mem_openedOver h)
        · cases h
      · have hmem := mem_of_mem_openedOver h
        split at hmem
        · exact List.mem_of_mem_take hmem
        · cases hmem
      · cases h

theorem mem_visitsInside_iff {m : Model s} {key : String} {value : Json} {v : Visit s} :
    v ∈ visitsInside m key value ↔ ∃ inner target,
      (.object inner, target) ∈ opened m key value (items value) ∧
        ∃ w ∈ visits inner target, v = w.inside (.object inner) target := by
  rw [visitsInside, List.mem_flatMap]
  constructor
  · rintro ⟨⟨document, target⟩, hopened, hv⟩
    cases document with
    | object inner =>
      rw [visitorOf, List.mem_map] at hv
      rcases hv with ⟨w, hw, rfl⟩
      exact ⟨inner, target, hopened, w, hw, rfl⟩
    | _ => simp [visitorOf] at hv
  · rintro ⟨inner, target, hopened, w, hw, rfl⟩
    refine ⟨(.object inner, target), hopened, ?_⟩
    rw [visitorOf, List.mem_map]
    exact ⟨w, hw, rfl⟩

/-- The reading visits the entries that stand in the document, and no others. -/
theorem mem_visits_iff {fields : List (String × Json)} {m : Model s} {v : Visit s} :
    v ∈ visits fields m ↔ Stands fields m v := by
  -- the induction is on the fields, with the documents inside the first one at hand
  induction fields using fields_induction generalizing m v with
  | nil =>
    rw [visits]
    constructor
    · intro h
      cases h
    · intro h
      cases h with
      | here entry => cases entry
      | inside entry => cases entry
  | cons key value fields hinner ih =>
    rw [visits_cons, List.mem_append, List.mem_cons, mem_visitsInside_iff]
    -- what is inside the first entry comes first, then the entry itself, then the visits of the
    -- rest
    constructor
    · rintro (⟨inner, target, hopened, w, hw, rfl⟩ | rfl | hv)
      · exact .inside List.mem_cons_self hopened ((hinner inner (mem_of_mem_opened hopened)).1 hw)
      · exact .here List.mem_cons_self
      · cases ih.1 hv with
        | here entry => exact .here (List.mem_cons_of_mem _ entry)
        | inside entry hopened hrest => exact .inside (List.mem_cons_of_mem _ entry) hopened hrest
    · intro h
      cases h with
      | here entry =>
        rcases List.mem_cons.1 entry with hfirst | hrest
        · cases hfirst
          exact .inr (.inl rfl)
        · exact .inr (.inr (ih.2 (.here hrest)))
      | inside entry hopened hrest =>
        rcases List.mem_cons.1 entry with hfirst | hmem
        · cases hfirst
          exact .inl ⟨_, _, hopened, _, (hinner _ (mem_of_mem_opened hopened)).2 hrest, rfl⟩
        · exact .inr (.inr (ih.2 (.inside hmem hopened hrest)))

/-- An entry is read on the model of the innermost document around it. -/
theorem Stands.model_eq {fields : List (String × Json)} {m : Model s} {v : Visit s}
    (h : Stands fields m v) : v.model = (v.enclosures.getLast?.map Prod.snd).getD m := by
  induction h with
  | here entry => rfl
  | @inside fields inner m target key value v entry hopened rest ih =>
    change v.model = _
    rw [ih, Visit.inside, List.getLast?_cons]
    cases v.enclosures.getLast? <;> rfl

/-! ## The first failure -/

/-- A result comes about by visiting entries in order: all of them can be read, or the first that
cannot fails with an error of its own and decides the failure. -/
inductive Localizes (visits : List (Visit s)) : Except Error α → Prop where
  | clean (succeed : ∀ v ∈ visits, v.Succeeds) (a : α) : Localizes visits (.ok a)
  | fault {before after : List (Visit s)} {v : Visit s} {cause : Error}
      (split : visits = before ++ v :: after) (succeed : ∀ w ∈ before, w.Succeeds)
      (fails : v.read = .error cause) (own : cause.wrappers = []) :
      Localizes visits (.error (v.failure cause))

namespace Localizes

variable {first rest : List (Visit s)} {x : Except Error α}

theorem nil (a : α) : Localizes (s := s) [] (.ok a) := .clean (List.forall_mem_nil _) a

/-- Visits one after the other. -/
theorem bind {f : α → Except Error β} (hx : Localizes first x)
    (hf : ∀ a, x = .ok a → Localizes rest (f a)) : Localizes (first ++ rest) (x >>= f) := by
  cases hx with
  -- the first part succeeds, so what the second localizes is localized after all of the first
  | clean hfirst a =>
    have hbind : ((.ok a : Except Error α) >>= f) = f a := rfl
    rw [hbind]
    have hrest := hf a rfl
    generalize f a = y at hrest
    cases hrest with
    | clean hrest b =>
      refine .clean (fun v hv => ?_) b
      rcases List.mem_append.1 hv with hv | hv
      · exact hfirst v hv
      · exact hrest v hv
    | @fault before after v cause hsplit hbefore hfails hown =>
      have hall : first ++ rest = (first ++ before) ++ v :: after := by
        rw [hsplit, List.append_assoc]
      refine .fault hall (fun w hw => ?_) hfails hown
      rcases List.mem_append.1 hw with hw | hw
      · exact hfirst w hw
      · exact hbefore w hw
  -- the second part is not reached
  | @fault before after v cause hsplit hbefore hfails hown =>
    have hall : first ++ rest = before ++ v :: (after ++ rest) := by
      rw [hsplit, List.append_assoc, List.cons_append]
    exact .fault hall hbefore hfails hown

/-- Visits in a nested document. -/
theorem inside (h : Localizes first x) (document : Json) (m : Model s) :
    Localizes (first.map (Visit.inside document m)) (x.mapError (Error.nested document m.name)) := by
  have hsucceed : ∀ {visits : List (Visit s)}, (∀ v ∈ visits, v.Succeeds) →
      ∀ v ∈ visits.map (Visit.inside document m), v.Succeeds := by
    intro visits hvisits v hv
    rcases List.mem_map.1 hv with ⟨w, hw, rfl⟩
    exact hvisits w hw
  cases h with
  | clean hfirst a => exact .clean (hsucceed hfirst) a
  | @fault before after v cause hsplit hbefore hfails hown =>
    have hall : first.map (Visit.inside document m) = before.map (Visit.inside document m) ++
        v.inside document m :: after.map (Visit.inside document m) := by
      rw [hsplit, List.map_append, List.map_cons]
    exact .fault hall (hsucceed hbefore) hfails hown

end Localizes

/-- Documents are visited one after the other. -/
theorem localizes_readAll {documents : List (Json × Model s)}
    (h : ∀ o ∈ documents, Localizes (visitorOf o.1 o.2) (nested o.1 o.2)) :
    Localizes (documents.flatMap fun o => visitorOf o.1 o.2)
      (readAll (documents.map fun o => (nested o.1, o.2))) := by
  induction documents with
  | nil => exact .nil []
  | cons o documents ih =>
    have hrest := ih fun o' ho' => h o' (List.mem_cons_of_mem o ho')
    rw [List.flatMap_cons, List.map_cons, readAll, List.mapM_cons]
    refine (h o List.mem_cons_self).bind fun _ _ => ?_
    rw [← List.append_nil (documents.flatMap _)]
    exact hrest.bind fun _ _ => .nil _

/-- An entry is visited after the documents that it opens. -/
theorem localizes_ofEntry {m : Model s} {key : String} {value : Json}
    (h : ∀ o ∈ opened m key value (items value), Localizes (visitorOf o.1 o.2) (nested o.1 o.2)) :
    Localizes (visitsInside m key value ++ [⟨[], m, key, value⟩])
      (ofEntry m key value (readersOf value)) := by
  have hinside : Localizes (visitsInside m key value)
      (readAll (opened m key value (readersOf value))) := by
    rw [readersOf_eq_map, opened_map]
    exact localizes_readAll h
  have hread : ReadsAll (opened m key value (readersOf value))
      (ofEntry m key value (readersOf value)) := readsAll_ofEntry key
  -- the nested documents have been read before the entry itself is looked at
  generalize hentry : ofEntry m key value (readersOf value) = x at hread
  cases hread with
  | done hall c =>
    rw [hall] at hinside
    cases hinside with
    | clean hsucceed _ =>
      refine .clean (fun v hv => ?_) c
      rcases List.mem_append.1 hv with hv | hv
      · exact hsucceed v hv
      · rw [List.mem_singleton.1 hv]
        exact ⟨c, hentry⟩
  -- a nested document failed, so the entry has not been visited
  | @inside e hfailed =>
    rw [hfailed] at hinside
    cases hinside with
    | @fault before after v cause hsplit hbefore hfails hown =>
      have hall : visitsInside m key value ++ [⟨[], m, key, value⟩] =
          before ++ v :: (after ++ [⟨[], m, key, value⟩]) := by
        rw [hsplit, List.append_assoc, List.cons_append]
      exact .fault hall hbefore hfails hown
  -- all nested documents could be read, so the fault is the entry's own
  | @itself _ e hall hown =>
    rw [hall] at hinside
    cases hinside with
    | clean hsucceed _ => exact .fault (v := ⟨[], m, key, value⟩) rfl hsucceed hentry hown

/-- Reading a document is visiting its entries. -/
theorem localizes_ofFields (fields : List (String × Json)) (m : Model s) :
    Localizes (visits fields m) (ofFields fields m) := by
  induction fields using fields_induction generalizing m with
  | nil =>
    rw [visits, ofFields_nil]
    exact .nil []
  | cons key value fields hinner ih =>
    have hopened : ∀ o ∈ opened m key value (items value),
        Localizes (visitorOf o.1 o.2) (nested o.1 o.2) := by
      rintro ⟨document, target⟩ ho
      cases document with
      | object inner =>
        rw [visitorOf, nested_eq]
        exact (hinner inner (mem_of_mem_opened ho) target).inside (.object inner) target
      | _ => cases isObject_of_opened ho
    -- an entry's visits, then those of the rest, in the order in which both are read
    rw [visits_cons, ofFields_cons, ← List.singleton_append, ← List.append_assoc]
    refine (localizes_ofEntry hopened).bind fun c _ => ?_
    rw [← List.append_nil (visits fields m)]
    exact (ih m).bind fun conditions _ => .nil _

/-! ## The failure of a document -/

/-- The first visited entry that cannot be read decides the failure of a document: the failure is
the entry's own error inside the nested documents around the entry, each with the name of the model
that it is read on. Its data leads through the data of these documents to the data of the entry's
error. -/
theorem failure_localized {fields : List (String × Json)} {m : Model s} {e : Error}
    (h : ofDocument (.object fields) m = .error e) : ∃ before v after cause,
      visits fields m = before ++ v :: after ∧ (∀ w ∈ before, w.Succeeds) ∧
        v.read = .error cause ∧ Stands fields m v ∧
        v.model = (v.enclosures.getLast?.map Prod.snd).getD m ∧
        e.rootCause = cause ∧ e.wrappers = v.documents ∧ e = .wrap v.documents cause ∧
        (∀ i, (hi : i < v.enclosures.length) → ∃ data, e.data.followExceptions i = some data ∧
          data.Records (v.enclosures[i].1, v.enclosures[i].2.name) (e.inner (i + 1))) ∧
        e.data.followExceptions v.enclosures.length = some e.rootCause.data := by
  have hvisits := localizes_ofFields fields m
  rw [← ofDocument, h] at hvisits
  cases hvisits with
  | @fault before after v cause hsplit hbefore hfails hown =>
    have hmem : v ∈ visits fields m := by
      rw [hsplit]
      exact List.mem_append_right before List.mem_cons_self
    have hstands := mem_visits_iff.1 hmem
    have hwrappers : (v.failure cause).wrappers = v.documents := by
      rw [Visit.failure, Error.wrappers_wrap, hown, List.append_nil]
    have hroot : (v.failure cause).rootCause = cause := by
      rw [Visit.failure, Error.rootCause_wrap, Error.rootCause_of_wrappers hown]
    have hlength : (v.failure cause).wrappers.length = v.enclosures.length := by
      rw [hwrappers, Visit.documents, List.length_map]
    refine ⟨before, v, after, cause, hsplit, hbefore, hfails, hstands, hstands.model_eq, hroot,
      hwrappers, rfl, fun i hi => ?_, ?_⟩
    · -- each document on the way is recorded in the data of the error that wraps the next
      have hi' : i < (v.failure cause).wrappers.length := hlength ▸ hi
      refine ⟨_, Error.followExceptions_data hi'.le, ?_⟩
      have hrecords := Error.records_inner hi'
      simpa only [hwrappers, Visit.documents, List.getElem_map] using hrecords
    · rw [← hlength, Error.followExceptions_data le_rfl, Error.inner_wrappers_length]

/-- A query that fails two documents deep. Its last entry would fail too. -/
def authorWithoutColumn : List (String × Json) :=
  [("surname=", .string "Doe"),
    ("articles=>", .object [("title=", .string "Loops"),
      ("author=>", .object [("id>", .number (.int 1)), ("nope=", .string "Roe")])]),
    ("password=", .string "secret")]

/-- The column `nope` of an author of an article is unknown, two documents deep and behind entries
that can be read. -/
theorem failure_localized_author : ∃ root e v, Schema.people.model? "Person" = some root ∧
    ofDocument (.object authorWithoutColumn) root = .error e ∧
      Stands authorWithoutColumn root v ∧ v.read = .error e.rootCause ∧
        v.documents.map Prod.snd = ["Article", "Person"] := by
  have hobserved : (Schema.people.model? "Person").map (fun root =>
      match ofDocument (.object authorWithoutColumn) root with
      | .error e => e.wrappers.map Prod.snd
      | .ok _ => []) = some ["Article", "Person"] := by
    decide +kernel
  rcases Option.map_eq_some_iff.1 hobserved with ⟨root, hroot, hmodels⟩
  cases hread : ofDocument (.object authorWithoutColumn) root with
  | ok conditions =>
    rw [hread] at hmodels
    cases hmodels
  | error e =>
    rw [hread] at hmodels
    rcases failure_localized hread with
      ⟨_, v, _, _, _, _, hfails, hstands, _, rfl, hwrappers, _⟩
    exact ⟨root, e, v, hroot, hread, hstands, hfails, hwrappers ▸ hmodels⟩

end Condition

end DocQuery
