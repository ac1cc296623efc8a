import DocQuery.Proofs.Build.Context
import DocQuery.Proofs.Order.Build
import DocQuery.Proofs.Text.Words

namespace DocQuery

/-! # How orders are spelled

The columns to order by and their directions can be written as a text, as a list of texts or of
pairs, or as an object. All spellings of the same entries are read alike, so one can stand for the
other in a query.

* `Spells.exists_ofJson`: every spelling of the entries is read, and as the entries.
* `ofEntry_order`: so an entry that orders reads alike in all spellings.
* `ordered_by_selected`: what a plan is ordered by it also selects, and every spelling gives the
  same plan.
-/

variable {s : Schema}

namespace OrderEntry

/-! ## Spellings -/

/-- The column, and the direction in which it is sorted. -/
def meaning (written : Written) : String × Direction := (written.1, direction written.2)

/-- In a text the entry is found again: blanks end its words. -/
structure Plain (written : Written) : Prop where
  some_column : written.1.toList ≠ []
  column : BlankFree written.1.toList
  direction : ∀ word ∈ written.2, BlankFree word.toList

/-- A text of an entry, with any blanks around its words. -/
inductive TextSpells : Written → String → Prop where
  | column {column : String} {before after : List Char} (blank_before : Blanks before)
      (blank_after : Blanks after) :
      TextSpells (column, none) (String.ofList (before ++ (column.toList ++ after)))
  | directed {column direction : String} {before between after : List Char}
      (blank_before : Blanks before) (blank_between : Blanks between) (apart : between ≠ [])
      (blank_after : Blanks after) :
      TextSpells (column, some direction)
        (String.ofList (before ++ (column.toList ++ (between ++ (direction.toList ++ after)))))

/-- An item of a list: a text or a pair, which lacks its second item if no direction is given. -/
inductive ItemSpells : Written → Json → Prop where
  | text {written : Written} {text : String} (spelled : TextSpells written text) :
      ItemSpells written (.string text)
  | single {column : String} : ItemSpells (column, none) (.array [.string column])
  | pair {column direction : String} :
      ItemSpells (column, some direction) (.array [.string column, .string direction])

/-- An entry of an object, with null if no direction is given. -/
inductive FieldSpells : Written → String × Json → Prop where
  | column {column : String} : FieldSpells (column, none) (column, .null)
  | directed {column direction : String} :
      FieldSpells (column, some direction) (column, .string direction)

/-- The value spells the entries in their order. (An object spells each column once.) -/
inductive Spells : List Written → Json → Prop where
  | nothing : Spells [] .null
  | text {written : Written} {text : String} (spelled : TextSpells written text) :
      Spells [written] (.string text)
  | items {entries : List Written} {items : List Json} (each : List.Forall₂ ItemSpells entries items) :
      Spells entries (.array items)
  | fields {entries : List Written} {fields : List (String × Json)}
      (each : List.Forall₂ FieldSpells entries fields) : Spells entries (.object fields)

/-! ## Reading -/

variable {written : Written} {entries : List Written} {value : Json}

theorem ofText_of_words {text : String} {column : List Char} (h : words text.toList = [column]) :
    ofText text = (String.ofList column, none) := by
  rw [ofText, h]

theorem ofText_of_words_cons {text : String} {column direction : List Char} {rest : List (List Char)}
    (h : words text.toList = column :: direction :: rest) :
    ofText text = (String.ofList column, some (String.ofList direction)) := by
  rw [ofText, h]

/-- A text is read as what it spells. A direction without characters is not found in it, but such a
one is ascending as well. -/
theorem TextSpells.meaning_ofText {text : String} (h : TextSpells written text)
    (hplain : Plain written) : meaning (ofText text) = meaning written := by
  cases h with
  | @column column before after blank_before blank_after =>
    have hcolumn : BlankFree column.toList := hplain.column
    have hsome : column.toList ≠ [] := hplain.some_column
    have hwords : words (before ++ (column.toList ++ after)) = [column.toList] := by
      rw [words_blanks_append blank_before hcolumn hsome, words_word_blanks hcolumn hsome blank_after]
    rw [ofText_of_words (by rw [String.toList_ofList, hwords]), String.ofList_toList]
  | @directed column direction before between after blank_before blank_between apart blank_after =>
    have hcolumn : BlankFree column.toList := hplain.column
    have hsome : column.toList ≠ [] := hplain.some_column
    have hdirection : BlankFree direction.toList := hplain.direction direction rfl
    -- no direction is spelled as an empty one, and then the text is a single word
    by_cases hempty : direction.toList = []
    · have hwords : words (before ++ (column.toList ++ (between ++ (direction.toList ++ after)))) =
          [column.toList] := by
        rw [words_blanks_append blank_before hcolumn hsome, hempty, List.nil_append,
          words_word_blanks hcolumn hsome (blank_between.append blank_after)]
      rw [ofText_of_words (by rw [String.toList_ofList, hwords]), String.ofList_toList,
        String.toList_eq_nil_iff.1 hempty]
      rfl
    · -- a blank stands behind the column, so its word ends there
      have hback : ∀ c ∈ (between ++ (direction.toList ++ after)).head?, isBlank c = true := by
        intro c hc
        rw [List.head?_append_of_ne_nil between apart] at hc
        exact blank_between c (List.mem_of_mem_head? hc)
      have hwords : words (before ++ (column.toList ++ (between ++ (direction.toList ++ after)))) =
          [column.toList, direction.toList] := by
        rw [words_blanks_append blank_before hcolumn hsome, words_word_append hcolumn hsome hback,
          words_blanks_append blank_between hdirection hempty,
          words_word_blanks hdirection hempty blank_after]
      rw [ofText_of_words_cons (by rw [String.toList_ofList, hwords]), String.ofList_toList,
        String.ofList_toList]

theorem ItemSpells.exists_ofItem {item : Json} (h : ItemSpells written item) (hplain : Plain written) :
    ∃ read, ofItem item = .ok read ∧ meaning read = meaning written := by
  cases h with
  | text spelled => exact ⟨_, rfl, spelled.meaning_ofText hplain⟩
  | single => exact ⟨_, rfl, rfl⟩
  | pair => exact ⟨_, rfl, rfl⟩

theorem FieldSpells.exists_ofField {field : String × Json} (h : FieldSpells written field) :
    ∃ read, ofField field = .ok read ∧ meaning read = meaning written := by
  cases h with
  | column => exact ⟨_, rfl, rfl⟩
  | directed => exact ⟨_, rfl, rfl⟩

/-- What is read one by one has the meanings in their order. -/
theorem exists_mapM {ι : Type} {spells : Written → ι → Prop} {read : ι → Except Error Written}
    {items : List ι} (h : List.Forall₂ spells entries items)
    (hread : ∀ written ∈ entries, ∀ item, spells written item →
      ∃ result, read item = .ok result ∧ meaning result = meaning written) :
    ∃ results, items.mapM read = .ok results ∧ results.map meaning = entries.map meaning := by
  simp only [mapM_eq_ok_iff]
  induction h with
  | nil => exact ⟨[], .nil, rfl⟩
  | @cons written item entries items hitem _ ih =>
    obtain ⟨result, hresult, hmeaning⟩ := hread written List.mem_cons_self item hitem
    obtain ⟨results, hresults, hmeanings⟩ := ih fun written hmem =>
      hread written (List.mem_cons_of_mem _ hmem)
    refine ⟨result :: results, .cons hresult hresults, ?_⟩
    rw [List.map_cons, List.map_cons, hmeaning, hmeanings]

/-- A value is read as entries that mean what it spells. -/
theorem Spells.exists_ofJson (h : Spells entries value) (hplain : ∀ written ∈ entries, Plain written) :
    ∃ read, ofJson value = .ok read ∧ read.map meaning = entries.map meaning := by
  cases h with
  | nothing => exact ⟨[], rfl, rfl⟩
  | text spelled =>
    refine ⟨_, rfl, ?_⟩
    rw [List.map_singleton, List.map_singleton,
      spelled.meaning_ofText (hplain _ (List.mem_singleton_self _))]
  | items each =>
    refine exists_mapM each ?_
    intro written hmem item hitem
    exact hitem.exists_ofItem (hplain written hmem)
  | fields each =>
    refine exists_mapM each ?_
    intro written _ field hfield
    exact hfield.exists_ofField

/-- Of an entry only its meaning is resolved. -/
theorem mapM_resolve_congr {entries' : List Written} (h : entries'.map meaning = entries.map meaning)
    (m : Model s) : entries'.mapM (resolve m) = entries.mapM (resolve m) := by
  -- resolving looks at the meaning alone
  let ofMeaning : String × Direction → Except Error (Column s × Direction) := fun meant => do
    (Column.ofText m meant.1).check
    return (Column.ofText m meant.1, meant.2)
  have hmap : ∀ entries : List Written,
      entries.mapM (resolve m) = (entries.map meaning).mapM ofMeaning := by
    intro entries
    rw [List.mapM_map]
    rfl
  rw [hmap, hmap, h]

/-- A value that spells entries is one of those that `order` takes. -/
theorem Spells.find? (h : Spells entries value) :
    FunctionName.find? FunctionName.order.text value = some .order ∧
      ∃ rule, Rule.find? ":" FunctionName.order.text value = some rule ∧ rule.form = .function := by
  cases h with
  | nothing => exact ⟨rfl, _, rfl, rfl⟩
  | text => exact ⟨rfl, _, rfl, rfl⟩
  | items => exact ⟨rfl, _, rfl, rfl⟩
  | fields => exact ⟨rfl, _, rfl, rfl⟩

end OrderEntry

namespace Condition

open OrderEntry

variable {m : Model s} {K : Model s → Prop} {text : String} {value value' : Json} {key : Key}
  {entries : List Written} {fields fields' : List (String × Json)}

/-- An entry `order:` is read as what its value spells. -/
theorem ofEntry_order (parsed : Key.parse text = some key) (operator : key.operator = ":")
    (function : key.columns.head? = some FunctionName.order.text) (spelled : Spells entries value)
    (plain : ∀ written ∈ entries, Plain written) (readers : List (DocumentReader s)) :
    ofEntry m text value readers = (do
      let resolved ← entries.mapM (resolve m)
      return .order resolved) := by
  obtain ⟨hfunction, rule, hrule, hform⟩ := spelled.find?
  obtain ⟨read, hread, hmeanings⟩ := spelled.exists_ofJson plain
  have hname : ((key.columns.map (Column.ofText m)).head?.map Column.text).getD "" =
      FunctionName.order.text := by
    rw [List.head?_map, function]
    rfl
  -- resolving looks at what an entry means only
  simp only [ofEntry_eq, parsed, operator, function, Option.getD_some, hrule, ofRule, hform, ofFunction,
    hname, hfunction, hread]
  rw [← mapM_resolve_congr hmeanings]
  rfl

/-- In the second document the value of an entry `order:` is another spelling of the same entries. -/
inductive RespellsOrder : List (String × Json) → List (String × Json) → Prop where
  | entry {front back : List (String × Json)} {text : String} {value value' : Json} {key : Key}
      {entries : List Written} (parsed : Key.parse text = some key) (operator : key.operator = ":")
      (function : key.columns.head? = some FunctionName.order.text)
      (plain : ∀ written ∈ entries, Plain written) (spelled : Spells entries value)
      (spelled' : Spells entries value') :
      RespellsOrder (front ++ (text, value) :: back) (front ++ (text, value') :: back)

theorem RespellsOrder.symm (h : RespellsOrder fields fields') : RespellsOrder fields' fields := by
  cases h with
  | entry parsed operator function plain spelled spelled' =>
    exact .entry parsed operator function plain spelled' spelled

theorem RespellsOrder.ne_nil (h : RespellsOrder fields fields') : fields ≠ [] ∧ fields' ≠ [] := by
  cases h with
  | entry => simp

theorem RespellsOrder.readReplaced (h : RespellsOrder fields fields') :
    ReadReplaced K (ofFields fields) (ofFields fields') := by
  cases h with
  | entry parsed operator function plain spelled spelled' =>
    refine readReplaced_of_entry ?_ _ _
    intro m c hread
    rw [ofEntry_order parsed operator function spelled plain] at hread
    rw [ofEntry_order parsed operator function spelled' plain, hread]

end Condition

namespace Query

open Condition

/-- Ordering is covered by what is selected, in a plan and in those embedded in it: each is ordered
by the entries of its own query, in document order, by columns of its base table, whose rows it
selects, and by others that it selects besides, nothing twice. However the entries are spelled, the
plan is the same. -/
theorem ordered_by_selected (s : Schema) :
    (∀ model query config plan, compile s model query config = .ok plan →
      ∃ conditions statement, parse s model query = .ok conditions ∧
        plan = statement.toPlan config.quoteIdentifiers ∧
        Orders config.quoteIdentifiers conditions statement) ∧
    ∀ query query', Rewrites RespellsOrder query query' → ∀ model config plan,
      compile s model query config = .ok plan ↔ compile s model query' config = .ok plan := by
  constructor
  · intro model query config plan hcompile
    exact orders_of_compile hcompile
  · intro query query' hrespelled model config plan
    exact compile_iff_of_rewrites (fun _ _ hentry => hentry.ne_nil) (fun _ _ hentry => hentry.symm)
      (fun _ _ hentry => hentry.readReplaced) hrespelled

/-- People with an article of a title, ordered as the value says. The articles of each are ordered
by the names of their authors, backwards, and by their rating. -/
def byTitle (value : Json) : Json :=
  .object
    [("order:", value),
      ("articles()",
        .array [.object [("order:", .array [.string "author.surname desc", .string "rating"])],
          .object [("title=", .string "Trees")]])]

/-- As a list of a text and a pair. -/
def titleItems : Json := .array [.string "articles.title desc ", .array [.string "surname"]]

/-- As an object. -/
def titleFields : Json := .object [("articles.title", .string "desc"), ("surname", .null)]

theorem ordered_by_selected_byTitle : ∃ plan conditions statement,
    compile Schema.people "Person" (byTitle titleItems) {} = .ok plan ∧
    compile Schema.people "Person" (byTitle titleFields) {} = .ok plan ∧
    plan.select = ["DISTINCT people.*", "smql_articles.title"] ∧
    plan.order = ["smql_articles.title DESC", "people.surname ASC"] ∧
    parse Schema.people "Person" (byTitle titleItems) = .ok conditions ∧
    plan = statement.toPlan false ∧ Orders false conditions statement := by
  have hclauses : (compile Schema.people "Person" (byTitle titleItems) {}).toOption.map
      (fun plan => (plan.select, plan.order)) = some (["DISTINCT people.*", "smql_articles.title"],
        ["smql_articles.title DESC", "people.surname ASC"]) := by
    decide +kernel
  obtain ⟨plan, hplan, hlists⟩ := exists_of_map_toOption hclauses
  obtain ⟨hselect, horder⟩ := Prod.mk.inj hlists
  have hkey : Key.parse "order:" = some ⟨none, ["order"], ":"⟩ := by decide +kernel
  have hblankFree : ∀ word ∈ ["articles.title", "surname", "desc"], BlankFree word.toList := by
    decide +kernel
  have hplain : ∀ written ∈ [("articles.title", some "desc"), ("surname", none)],
      OrderEntry.Plain written := by
    intro written hwritten
    simp only [List.mem_cons, List.not_mem_nil, or_false] at hwritten
    rcases hwritten with rfl | rfl
    · exact ⟨by decide, hblankFree _ (by simp), by simpa using hblankFree "desc" (by simp)⟩
    · exact ⟨by decide, hblankFree _ (by simp), by simp⟩
  have hitems : OrderEntry.Spells [("articles.title", some "desc"), ("surname", none)] titleItems := by
    have hspace : Blanks [' '] := by decide
    have htext := @OrderEntry.TextSpells.directed "articles.title" "desc" [] [' '] [' ']
      (List.forall_mem_nil _) hspace (List.cons_ne_nil _ _) hspace
    exact .items (.cons (.text htext) (.cons .single .nil))
  have hfields : OrderEntry.Spells [("articles.title", some "desc"), ("surname", none)] titleFields :=
    .fields (.cons .directed (.cons .column .nil))
  have hrewrites : Rewrites RespellsOrder (byTitle titleItems) (byTitle titleFields) :=
    .here (@RespellsOrder.entry [] _ _ _ _ _ _ hkey rfl rfl hplain hitems hfields)
  obtain ⟨hordered, hspelled⟩ := ordered_by_selected Schema.people
  obtain ⟨conditions, statement, hparse, hrendered, horders⟩ := hordered _ _ _ _ hplan
  have hplan' := (hspelled _ _ hrewrites "Person" {} plan).1 hplan
  exact ⟨plan, conditions, statement, hplan, hplan', hselect, horder, hparse, hrendered, horders⟩

end Query

end DocQuery
