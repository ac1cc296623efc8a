import DocQuery.Proofs.Build.Carry
import DocQuery.Proofs.Build.Ledger
import DocQuery.Proofs.Condition.Listed
import DocQuery.Proofs.Quotes.Statement

namespace DocQuery

/-! # Builds do not depend on quoting

The select list is the one part of a draft that is looked at as text, when an entry is only added if
it is not there yet. Entries are told apart by their texts, quoted or not, unless a column called
`*` is taken for the rows of the base table. Aliases begin with their stem, so this takes a stem
that begins with the word that rows are marked with.

* `inert_withQuotes`: joins and includes are made without a look at quotes.
* `Legible.addSelect`: an entry is selected quoted exactly if it is selected bare.
* `build_requotes`: a condition builds the same tree and, but for the quotes, the same draft.
-/

open Build Draft

variable {s : Schema} {stem : String}

/-- The text begins with the word that marks the rows of a base table. -/
def Marked (text : String) : Prop := "DISTINCT ".toList <+: text.toList

/-- A column of this name can be told from rows where aliases have the stem. -/
structure Listable (stem name : String) : Prop where
  undotted : '.' ∉ name.toList
  unmarked : name = "*" → ¬Marked stem

namespace Draft

variable {d e : Draft s}

/-- The draft with identifiers in quotes, or bare ones. -/
def withQuotes (quoted : Bool) (d : Draft s) : Draft s :=
  { d with config := { d.config with quoteIdentifiers := quoted } }

/-- Entries of the select list are told apart by their texts. -/
structure Legible (stem : String) (d : Draft s) : Prop where
  stem_eq : d.config.aliasStem = stem
  aliases : ∀ path a, d.aliasAt? path = some a → a = d.baseAlias ∨ (Marked a → Marked stem)
  select : ∀ item ∈ d.select, item.Legible d.baseAlias

theorem legible_withBase (model : Model s) {config : Config} (hstem : config.aliasStem = stem)
    (baseAlias : String) (usedAliases : List String) (lastParam : Nat) :
    (withBase model config baseAlias usedAliases lastParam).Legible stem := by
  refine ⟨hstem, fun path a ha => ?_, List.forall_mem_singleton.2 .rowsOf⟩
  simp only [aliasAt?, withBase, lookup_cons_eq, List.lookup_nil] at ha
  split at ha
  · cases ha
    exact .inl rfl
  · cases ha

/-! ## Aliases -/

/-- A new alias only begins with the mark if the stem does. -/
theorem marked_of_newAlias (hstem : d.config.aliasStem = stem) {path : TablePath}
    (h : Marked (d.newAlias path)) : Marked stem := by
  have hmark : '_' ∉ "DISTINCT ".toList := by decide
  have hwanted := prefix_of_prefix_freshAlias hmark h
  rw [wantedAlias, String.toList_append, String.toList_append, List.append_assoc, hstem] at hwanted
  exact prefix_of_prefix_append hmark hwanted

theorem Legible.setAlias (h : d.Legible stem) (path : TablePath) {a : String}
    (ha : a = d.baseAlias ∨ (Marked a → Marked stem)) : (d.setAlias path a).Legible stem := by
  refine ⟨h.stem_eq, fun q b hb => ?_, h.select⟩
  rw [aliasAt?_setAlias] at hb
  split at hb
  · cases hb
    exact ha
  · exact h.aliases q b hb

theorem Legible.aliasOf (h : d.Legible stem) (path : TablePath) :
    ((d.aliasOf path).1 = d.baseAlias ∨ (Marked (d.aliasOf path).1 → Marked stem)) ∧
      (d.aliasOf path).2.Legible stem := by
  cases hnamed : d.aliasAt? path with
  | some a =>
    rw [aliasOf_of_some hnamed]
    exact ⟨h.aliases path a hnamed, h⟩
  | none =>
    rw [aliasOf_of_none hnamed]
    have hnew : Marked (d.newAlias path) → Marked stem := marked_of_newAlias h.stem_eq
    have hset := h.setAlias path (.inr hnew)
    exact ⟨.inr hnew, hset.stem_eq, hset.aliases, hset.select⟩

/-- Naming a path keeps the alias of the base. -/
theorem baseAlias_aliasOf (d : Draft s) (path : TablePath) :
    (d.aliasOf path).2.baseAlias = d.baseAlias := (aliasOf_frame rfl).1

/-- Quoting makes no difference to joins. -/
theorem inert_withQuotes (stem : String) (quoted : Bool) :
    Inert (withQuotes (s := s) quoted) (Legible stem) where
  isJoined _ _ := rfl
  -- aliases are made from the stem and the path, not from their quotes
  aliasOf d path := by
    cases hnamed : d.aliasAt? path with
    | some a =>
      have hnamed' : (d.withQuotes quoted).aliasAt? path = some a := hnamed
      rw [aliasOf_of_some hnamed, aliasOf_of_some hnamed']
    | none =>
      have hnamed' : (d.withQuotes quoted).aliasAt? path = none := hnamed
      rw [aliasOf_of_none hnamed, aliasOf_of_none hnamed']
      rfl
  setAlias _ _ _ := rfl
  addJoin _ _ _ _ _ := rfl
  markJoined _ _ _ := rfl
  addInclude d path := by
    unfold addInclude
    rw [apply_ite (withQuotes quoted)]
    rfl
  aliasOf_kept hd path := (hd.aliasOf path).2
  setAlias_kept {d} hd path other := by
    rcases hd.aliasOf other with ⟨ha, he⟩
    rw [← d.baseAlias_aliasOf other] at ha
    exact he.setAlias path ha
  addJoin_kept hd _ _ _ _ := ⟨hd.stem_eq, hd.aliases, hd.select⟩
  markJoined_kept hd _ _ := ⟨hd.stem_eq, hd.aliases, hd.select⟩
  addInclude_kept hd path := by
    unfold addInclude
    split
    · exact hd
    · exact ⟨hd.stem_eq, hd.aliases, hd.select⟩

/-! ## Lists -/

/-- A listable column of a legible draft is not taken for rows. -/
theorem Legible.columnAt (h : d.Legible stem) (path : TablePath) {name : String}
    (hname : Listable stem name) :
    (SelectItem.column (d.columnAt path name).1).Legible d.baseAlias := by
  refine .column hname.undotted fun hstar halias => ?_
  have halias : (d.aliasOf path).1 = "DISTINCT " ++ d.baseAlias := halias
  rcases (h.aliasOf path).1 with hbase | hmarked
  · -- no text is its own marked form
    rw [hbase] at halias
    have hlength := congrArg String.length halias
    simp at hlength
  · refine hname.unmarked hstar (hmarked ?_)
    rw [halias, Marked, String.toList_append]
    exact List.prefix_append _ _

/-- Whether an entry is there already does not depend on quoting. -/
theorem Legible.addSelect (h : d.Legible stem) {item : SelectItem} (hitem : item.Legible d.baseAlias)
    (quoted : Bool) : (d.withQuotes quoted).addSelect item = (d.addSelect item).withQuotes quoted ∧
      (d.addSelect item).Legible stem := by
  -- whether an entry is there is asked by text, and legible entries have one text only if they are
  -- one
  have hthere : ∀ q : Bool, (d.select.any fun other => other.toSql q == item.toSql q) = true ↔
      item ∈ d.select := by
    intro q
    rw [List.any_eq_true]
    constructor
    · rintro ⟨other, hmem, htext⟩
      have hsame := ((h.select other hmem).toSql_inj hitem q).1 (eq_of_beq htext)
      exact hsame ▸ hmem
    · intro hmem
      exact ⟨item, hmem, beq_self_eq_true _⟩
  by_cases hmem : item ∈ d.select
  · have hsame : d.addSelect item = d := if_pos ((hthere _).2 hmem)
    have hsame' : (d.withQuotes quoted).addSelect item = d.withQuotes quoted :=
      if_pos ((hthere quoted).2 hmem)
    rw [hsame, hsame']
    exact ⟨rfl, h⟩
  · have hadd : d.addSelect item = { d with select := d.select ++ [item] } :=
      if_neg (mt (hthere _).1 hmem)
    have hadd' : (d.withQuotes quoted).addSelect item =
        { d.withQuotes quoted with select := d.select ++ [item] } :=
      if_neg (mt (hthere quoted).1 hmem)
    rw [hadd, hadd']
    exact ⟨rfl, h.stem_eq, h.aliases,
      List.forall_mem_append.2 ⟨h.select, List.forall_mem_singleton.2 hitem⟩⟩

/-- Ordering commutes with quoting, as selecting does. -/
theorem Legible.addOrder (h : d.Legible stem) (path : TablePath) {name : String}
    (hname : Listable stem name) (direction : Direction) (quoted : Bool) :
    (d.withQuotes quoted).addOrder path name direction =
        (d.addOrder path name direction).withQuotes quoted ∧
      (d.addOrder path name direction).Legible stem := by
  have hcolumn := h.columnAt path hname
  have hasked : (d.withQuotes quoted).columnAt path name =
      ((d.columnAt path name).1, (d.columnAt path name).2.withQuotes quoted) := by
    simp only [Draft.columnAt, (inert_withQuotes stem quoted).aliasOf]
  have hlegible : (d.columnAt path name).2.Legible stem := (h.aliasOf path).2
  rw [← show (d.columnAt path name).2.baseAlias = d.baseAlias from d.baseAlias_aliasOf path] at hcolumn
  unfold Draft.addOrder
  rw [hasked]
  generalize d.columnAt path name = r at hcolumn hlegible
  rcases r with ⟨column, e⟩
  simp only at hcolumn hlegible ⊢
  -- an entry of the order is not looked at again
  have hordered : ∀ {e : Draft s}, e.Legible stem →
      ({ e with order := e.order ++ [⟨column, direction⟩] } : Draft s).Legible stem :=
    fun he => ⟨he.stem_eq, he.aliases, he.select⟩
  by_cases hbase : path = e.base
  · rw [if_pos hbase, if_pos (show path = (e.withQuotes quoted).base from hbase)]
    exact ⟨rfl, hordered hlegible⟩
  · rw [if_neg hbase, if_neg (show ¬path = (e.withQuotes quoted).base from hbase)]
    rcases hlegible.addSelect hcolumn quoted with ⟨hsame, hselected⟩
    rw [hsame]
    exact ⟨rfl, hordered hselected⟩

/-! ## Sub-queries -/

/-- The step does the same with identifiers in quotes and bare, and keeps the draft legible. -/
abbrev Requotes {α : Type} (stem : String) (quoted : Bool) (step : Build s α) (d : Draft s) : Prop :=
  Carries (withQuotes quoted) (Legible stem) step d

/-- A test names its columns; the quotes come with the text. -/
theorem requotes_pushWhere (hd : d.Legible stem) (quoted : Bool) (tree : Predicate Test) :
    Requotes stem quoted (modify (·.pushWhere tree)) d :=
  matches_modify rfl ⟨hd.stem_eq, hd.aliases, hd.select⟩

/-- Values are bound under names without quotes. -/
theorem requotes_bindAll (hd : d.Legible stem) (quoted : Bool) (values : List Operand) :
    Requotes stem quoted (modifyGet (·.bindAll values)) d := by
  refine matches_modifyGet ?_ ?_
  · rw [bindAll_eq, bindAll_eq]
    rfl
  · rw [bindAll_eq]
    exact ⟨hd.stem_eq, hd.aliases, hd.select⟩

/-- The test that ties a sub-query to its parent is made from aliases, not from text. -/
theorem requotes_correlation (hd : d.Legible stem) (quoted : Bool) (relation : Relation s)
    (parentAlias : String) : Requotes stem quoted (correlation relation parentAlias) d := by
  have hinert := inert_withQuotes (s := s) stem quoted
  unfold correlation
  refine matches_get ?_
  cases relation with
  | through name owner definition first second => exact matches_throw _
  | direct name owner definition link target =>
    cases link with
    | hasMany foreignKey =>
      exact (hinert.carries_columnAt hd _ _).bind fun _ _ _ hd => matches_pure hd _
    | belongsTo foreignKey =>
      exact (hinert.carries_columnAt hd _ _).bind fun _ _ _ hd => matches_pure hd _
    | manyToMany joinTable foreignKey associationKey =>
      refine (hinert.carries_aliasOf hd _).bind fun _ _ _ hd => matches_get ?_
      refine (hinert.carries_addJoin hd _ _ _ _).bind fun _ e _ hd => ?_
      -- the path of the join table is marked, which has no alias of its own to spell
      have hmark : ∀ path, Requotes stem quoted
          (modify fun d => { d with joined := path :: d.joined }) e :=
        fun path => matches_modify rfl ⟨hd.stem_eq, hd.aliases, hd.select⟩
      exact (hmark _).bind fun _ _ _ hd => matches_pure hd _
    | unknown kind => exact matches_throw _

/-- So a sub-query is tied to its parent with quotes as without. -/
theorem requotes_correlate (hd : d.Legible stem) (quoted : Bool) (relation : Relation s)
    (parentAlias : String) : Requotes stem quoted (correlate relation parentAlias) d :=
  (requotes_correlation hd quoted relation parentAlias).bind fun _ _ _ hd => requotes_pushWhere hd _ _

/-- A sub-query is opened with the quotes of its parent. -/
theorem requotes_openNested {β : Type} (hd : d.Legible stem) (quoted : Bool) (model : Model s)
    (place : TablePath) {next : Draft s → Build s β}
    (hnext : ∀ sub e, sub.Legible stem → e.Legible stem →
      Matches (withQuotes quoted) (Legible stem) (next sub) (next (sub.withQuotes quoted)) e) :
    Requotes stem quoted (modifyGet (·.openNested model place) >>= next) d := by
  have hinert := inert_withQuotes (s := s) stem quoted
  have hopen : (d.withQuotes quoted).openNested model place =
      ((d.openNested model place).1.withQuotes quoted,
        (d.openNested model place).2.withQuotes quoted) := by
    simp only [openNested, hinert.aliasOf]
    rfl
  have houter := (hd.aliasOf (place.child (.base model.table))).2
  have hsub : (d.openNested model place).1.Legible stem :=
    legible_withBase model houter.stem_eq _ _ _
  have hstep := hnext _ _ hsub houter
  -- opening hands the quotes on, so the rest runs on drafts that differ in their quotes only
  constructor
  · rw [runOn_bind, runOn_bind]
    have hgives : ∀ d : Draft s, Build.runOn (modifyGet (·.openNested model place)) d =
        (.ok (d.openNested model place).1, (d.openNested model place).2) := fun _ => rfl
    rw [hgives, hgives, hopen]
    exact hstep.runOn_eq
  · intro b e hrun
    rcases runs_bind.1 hrun with ⟨_, _, hgives, hrest⟩
    rcases runs_modifyGet.1 hgives with ⟨rfl, rfl⟩
    exact hstep.kept b e hrest

/-- Joining a derived table commutes with quoting. -/
theorem Legible.joinDerived (h : d.Legible stem) (path : TablePath) (model : Model s)
    (derived : String → Join Statement) (quoted : Bool) :
    (d.withQuotes quoted).joinDerived path model derived =
        (d.joinDerived path model derived).withQuotes quoted ∧
      (d.joinDerived path model derived).Legible stem := by
  have hinert := inert_withQuotes (s := s) stem quoted
  have hlegible := (h.aliasOf path).2
  unfold Draft.joinDerived
  rw [hinert.isJoined, hinert.aliasOf]
  split
  · exact ⟨rfl, h⟩
  · exact ⟨rfl, hlegible.stem_eq, hlegible.aliases, hlegible.select⟩

end Draft

namespace Condition

variable {d : Draft s}

/-- A sub-query is built with the quotes of its parent, and embedded as data. -/
theorem requotes_derivedJoin {relation : Relation s} {subquery conditions : List (Condition s)}
    (quoted : Bool) (table : TablePath) (column : Column s)
    (hsubquery : ∀ {d : Draft s} (path : TablePath), d.Legible stem →
      Requotes stem quoted (buildEach subquery path) d)
    (hconditions : ∀ {d : Draft s} (path : TablePath), d.Legible stem →
      Requotes stem quoted (buildEach conditions path) d) (hd : d.Legible stem) :
    Requotes stem quoted (build (.derivedJoin column relation subquery conditions) table) d := by
  have hinert := inert_withQuotes (s := s) stem quoted
  rw [build]
  refine matches_get ?_
  refine (hinert.carries_aliasOf hd table).bind fun parentAlias d₁ _ hd₁ => ?_
  refine requotes_openNested hd₁ quoted _ _ fun sub d₂ hsub hd₂ => ?_
  -- the sub-query, its clause and its tie to the parent run on the draft of the sub-query
  have hinner : Requotes stem quoted (do
      let trees ← buildEach subquery sub.base
      modify (·.pushWhere (.all trees))
      correlate relation parentAlias) sub :=
    (hsubquery _ hsub).bind fun _ _ _ hbuilt => (requotes_pushWhere hbuilt _ _).bind fun _ _ _ hpushed =>
      requotes_correlate hpushed _ _ _
  refine matches_within hinner fun _ done _ hdone => ?_
  -- what is taken over from the sub-query is neither selected nor named
  have habsorb : Matches (withQuotes quoted) (Legible stem) (modify (·.absorb done))
      (modify (·.absorb (done.withQuotes quoted))) d₂ :=
    matches_modify rfl ⟨hd₂.stem_eq, hd₂.aliases, hd₂.select⟩
  refine habsorb.bind fun _ d₃ _ hd₃ => ?_
  have hjoined := hd₃.joinDerived (derivedPath d table relation.name) relation.target
    (fun tableAlias => .derived tableAlias done.finish) quoted
  exact Matches.bind (matches_modify hjoined.1 hjoined.2) fun _ _ _ hd₄ =>
    (hconditions _ hd₄).bind fun _ _ _ hd₅ => matches_pure hd₅ _

/-- An order does the same with quotes, if its columns can be listed. -/
theorem requotes_orderBy (quoted : Bool) (table : TablePath) {entries : List (Column s × Direction)}
    (hnamed : ∀ e ∈ entries, Listable stem (e.1.name.getD "")) (hd : d.Legible stem) :
    Requotes stem quoted (orderBy table entries) d := by
  have hinert := inert_withQuotes (s := s) stem quoted
  induction entries generalizing d with
  | nil => exact matches_pure hd _
  | cons entry entries ih =>
    rcases entry with ⟨column, direction⟩
    refine (hinert.carries_joinColumn hd table column).bind fun path _ _ hd => ?_
    have horder := hd.addOrder path (hnamed (column, direction) List.mem_cons_self) direction quoted
    exact Matches.bind (matches_modify horder.1 horder.2) fun _ _ _ hd =>
      ih (fun e he => hnamed e (List.mem_cons_of_mem _ he)) hd

/-- Whether a function is called at the root does not depend on quotes. -/
theorem requotes_atRoot (quoted : Bool) (function : FunctionName) (table : TablePath)
    {step : Build s Unit} (h : Requotes stem quoted step d) :
    Requotes stem quoted (atRoot function table step) d :=
  matches_ite h (matches_throw _)

/-- A selection does the same with quotes, if its column can be listed. -/
theorem requotes_buildSelect {conditions : List (Condition s)} (quoted : Bool) (table : TablePath)
    {column : Column s} (hnamed : column.isColumn = true → Listable stem (column.name.getD ""))
    (hconditions : ∀ {d : Draft s} (path : TablePath), d.Legible stem →
      Requotes stem quoted (buildEach conditions path) d) (hd : d.Legible stem) :
    Requotes stem quoted (buildSelect ⟨column, conditions⟩ table) d := by
  have hinert := inert_withQuotes (s := s) stem quoted
  rw [buildSelect]
  split
  · rename_i hcolumn
    refine (hinert.carries_joinColumn hd table column).bind fun path e _ he => ?_
    refine (hinert.carries_columnAt he path _).bind fun qualified e' hrun he' => ?_
    -- the column is the one that has just been asked for
    rcases runs_modifyGet.1 hrun with ⟨rfl, rfl⟩
    have hitem := he.columnAt path (hnamed hcolumn)
    rw [← show (e.columnAt path (column.name.getD "")).2.baseAlias = e.baseAlias from
      e.baseAlias_aliasOf path] at hitem
    have hselect := he'.addSelect hitem quoted
    exact Matches.bind (matches_modify hselect.1 hselect.2) fun _ _ _ hd => matches_pure hd _
  · refine (hinert.carries_includeRelation hd table column).bind fun _ _ _ hd =>
      matches_ite (matches_pure hd _) ?_
    exact (hinert.carries_joinRelation hd table column).bind fun path _ _ hd =>
      (hconditions path hd).bind fun _ _ _ hd => matches_pure hd _

mutual

/-- Building a condition whose lists are legible does not depend on quoting. -/
theorem build_requotes (quoted : Bool) (c : Condition s) (hc : c.Lists (Listable stem))
    {d : Draft s} (table : TablePath) (hd : d.Legible stem) :
    Requotes stem quoted (build c table) d := by
  have hinert := inert_withQuotes (s := s) stem quoted
  cases c with
  -- joins and bound values do not depend on quotes
  | comparison rule template columns values =>
    rw [build]
    exact (hinert.carries_joinColumns hd table columns).bind fun _ _ _ hd =>
      (requotes_bindAll hd quoted values).bind fun _ _ _ hd => matches_pure hd _
  | presence rule template columns =>
    rw [build]
    exact (hinert.carries_joinColumns hd table columns).bind fun _ _ _ hd => matches_pure hd _
  | membership rule template columns values =>
    rw [build]
    refine (hinert.carries_joinColumns hd table columns).bind fun _ e _ hd => ?_
    have hbind : Requotes stem quoted (modifyGet (·.bind values)) e :=
      matches_modifyGet rfl ⟨hd.stem_eq, hd.aliases, hd.select⟩
    exact hbind.bind fun _ _ _ hd => matches_pure hd _
  | range rule template columns low high =>
    rw [build]
    exact (hinert.carries_joinColumns hd table columns).bind fun _ _ _ hd =>
      (requotes_bindAll hd quoted [low, high]).bind fun _ _ _ hd => matches_pure hd _
  | overlap rule template columns span =>
    rw [build]
    exact (hinert.carries_joinColumns hd table columns).bind fun _ _ _ hd =>
      (requotes_bindAll hd quoted _).bind fun _ _ _ hd => matches_pure hd _
  -- what a nested document lists can be listed, so the induction goes into it
  | relationJoin targets =>
    cases hc with
    | relationJoin nested =>
      rw [build]
      exact (buildJoins_requotes quoted _ targets nested table hd).bind fun _ _ _ hd =>
        matches_pure hd _
  | derivedJoin column relation subquery conditions =>
    cases hc with
    | derivedJoin rows nested =>
      exact requotes_derivedJoin quoted table column
        (fun path hd => buildEach_requotes quoted subquery rows path hd)
        (fun path hd => buildEach_requotes quoted conditions nested path hd) hd
  | select targets =>
    cases hc with
    | select named nested =>
      rw [build]
      exact (buildSelects_requotes quoted targets named nested table hd).bind fun _ _ _ hd =>
        matches_pure hd _
  -- only an order and a selection look at text, and what they list is legible
  | order entries =>
    cases hc with
    | order named =>
      rw [build]
      exact (requotes_atRoot quoted .order table (requotes_orderBy quoted table named hd)).bind
        fun _ _ _ hd => matches_pure hd _
  | limit n =>
    rw [build]
    refine (requotes_atRoot quoted .limit table ?_).bind fun _ _ _ hd => matches_pure hd _
    exact matches_modify rfl ⟨hd.stem_eq, hd.aliases, hd.select⟩
  | offset n =>
    rw [build]
    refine (requotes_atRoot quoted .offset table ?_).bind fun _ _ _ hd => matches_pure hd _
    exact matches_modify rfl ⟨hd.stem_eq, hd.aliases, hd.select⟩

/-- Conditions that can be listed do the same with quotes one after the other. -/
theorem buildEach_requotes (quoted : Bool) (conditions : List (Condition s))
    (hc : ∀ c ∈ conditions, c.Lists (Listable stem)) {d : Draft s} (table : TablePath)
    (hd : d.Legible stem) : Requotes stem quoted (buildEach conditions table) d := by
  cases conditions with
  | nil =>
    rw [buildEach]
    exact matches_pure hd _
  | cons condition conditions =>
    rcases List.forall_mem_cons.1 hc with ⟨hcondition, hconditions⟩
    rw [buildEach]
    exact (build_requotes quoted condition hcondition table hd).bind fun _ _ _ hd =>
      (buildEach_requotes quoted conditions hconditions table hd).bind fun _ _ _ hd => matches_pure hd _

/-- So do documents. -/
theorem buildDocuments_requotes (quoted : Bool) (documents : List (List (Condition s)))
    (hc : ∀ document ∈ documents, ∀ c ∈ document, c.Lists (Listable stem)) {d : Draft s}
    (table : TablePath) (hd : d.Legible stem) :
    Requotes stem quoted (buildDocuments documents table) d := by
  cases documents with
  | nil =>
    rw [buildDocuments]
    exact matches_pure hd _
  | cons document documents =>
    rcases List.forall_mem_cons.1 hc with ⟨hdocument, hdocuments⟩
    rw [buildDocuments]
    exact (buildEach_requotes quoted document hdocument table hd).bind fun _ _ _ hd =>
      (buildDocuments_requotes quoted documents hdocuments table hd).bind fun _ _ _ hd =>
        matches_pure hd _

/-- So do the targets of a relation join. -/
theorem buildJoins_requotes (quoted : Bool) (within : Connective)
    (targets : List (Target s (List (List (Condition s)))))
    (hc : ∀ t ∈ targets, ∀ document ∈ t.nested, ∀ c ∈ document, c.Lists (Listable stem))
    {d : Draft s} (table : TablePath) (hd : d.Legible stem) :
    Requotes stem quoted (buildJoins within targets table) d := by
  have hinert := inert_withQuotes (s := s) stem quoted
  cases targets with
  | nil =>
    rw [buildJoins]
    exact matches_pure hd _
  | cons target targets =>
    rcases target with ⟨column, documents⟩
    rcases List.forall_mem_cons.1 hc with ⟨hdocuments, htargets⟩
    rw [buildJoins, buildJoin]
    refine Matches.bind ?_ fun _ _ _ hd =>
      (buildJoins_requotes quoted within targets htargets table hd).bind fun _ _ _ hd =>
        matches_pure hd _
    exact (hinert.carries_joinRelation hd table column).bind fun path _ _ hd =>
      (buildDocuments_requotes quoted documents hdocuments path hd).bind fun _ _ _ hd =>
        matches_pure hd _

/-- So do the targets of a selection. -/
theorem buildSelects_requotes (quoted : Bool) (targets : List (Target s (List (Condition s))))
    (hnamed : ∀ t ∈ targets, t.column.isColumn = true → Listable stem (t.column.name.getD ""))
    (hc : ∀ t ∈ targets, ∀ c ∈ t.nested, c.Lists (Listable stem)) {d : Draft s} (table : TablePath)
    (hd : d.Legible stem) : Requotes stem quoted (buildSelects targets table) d := by
  cases targets with
  | nil =>
    rw [buildSelects]
    exact matches_pure hd _
  | cons target targets =>
    rcases target with ⟨column, conditions⟩
    rcases List.forall_mem_cons.1 hnamed with ⟨hcolumn, hcolumns⟩
    rcases List.forall_mem_cons.1 hc with ⟨hconditions, htargets⟩
    rw [buildSelects]
    exact (requotes_buildSelect quoted table hcolumn
      (fun path hd => buildEach_requotes quoted conditions hconditions path hd) hd).bind fun _ _ _ hd =>
      (buildSelects_requotes quoted targets hcolumns htargets table hd).bind fun _ _ _ hd =>
        matches_pure hd _

end

/-- The WHERE clause is built alike. -/
theorem buildWhere_requotes (quoted : Bool) {conditions : List (Condition s)}
    (hc : ∀ c ∈ conditions, c.Lists (Listable stem)) (table : TablePath) (hd : d.Legible stem) :
    Requotes stem quoted (buildWhere conditions table) d := by
  induction conditions generalizing d with
  | nil => exact matches_pure hd _
  | cons condition conditions ih =>
    rcases List.forall_mem_cons.1 hc with ⟨hcondition, hconditions⟩
    rw [buildWhere]
    refine (build_requotes quoted condition hcondition table hd).bind fun tree _ _ hd => ?_
    cases tree with
    | none => exact ih hconditions hd
    | some tree => exact (requotes_pushWhere hd quoted tree).bind fun _ _ _ hd => ih hconditions hd

end Condition

end DocQuery
