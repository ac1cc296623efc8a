import DocQuery.Proofs.Dictionary.Entries
import DocQuery.Proofs.Json.Compact
import DocQuery.Proofs.Schema.Sound
import DocQuery.Schema.Document

namespace DocQuery

/-! # Written schemas

Reading a schema is looser than writing it, so a document is not found again in the schema that it
gives. The schema is: what is written of it is read as the same schema. Each reader undoes its
writer, for kinds of relation only where the kind came from a text, as all do that are read.

* `readsBack_schema`: reading undoes writing, for kinds that come from a text.
* `numberless_schema`: what is written is shallow and has no numbers, so its text is read in full.
* `load_writeSchema`: what a text is loaded as is loaded again from the written document and from
  any text of it.
-/

/-- The kind is the one that its principal name names. An unknown kind must not bear the name of a
known one. -/
def RelationKind.IsNamed (kind : RelationKind) : Prop := ofText kind.text = kind

/-- A kind that a text names is the one that its principal name names. -/
theorem RelationKind.isNamed_ofText (text : String) : (ofText text).IsNamed := by
  unfold IsNamed
  cases hkind : ofText text with
  | unknown name =>
    -- only a text that names no known kind is kept, as it stands
    have hname : name = text := by
      unfold ofText at hkind
      split_ifs at hkind
      exact (unknown.inj hkind).symm
    rw [RelationKind.text, hname, hkind, hname]
  | _ => rfl

def ModelDefinition.KindsNamed (m : ModelDefinition) : Prop :=
  ∀ entry ∈ m.relations.entries, entry.2.kind.IsNamed

def Schema.KindsNamed (s : Schema) : Prop := ∀ entry ∈ s.models.entries, entry.2.KindsNamed

/-- Items can be read one by one exactly if there is a result for each of them. -/
theorem mapM_eq_some_iff {α β : Type} {f : α → Option β} {xs : List α} {ys : List β} :
    xs.mapM f = some ys ↔ List.Forall₂ (fun x y => f x = some y) xs ys := by
  induction xs generalizing ys with
  | nil =>
    rw [List.mapM_nil, List.forall₂_nil_left_iff, Option.pure_def, Option.some_inj, eq_comm]
  | cons x xs ih =>
    rw [List.mapM_cons, List.forall₂_cons_left_iff]
    simp only [Option.bind_eq_bind, Option.bind_eq_some_iff, ih, Option.pure_def, Option.some_inj]
    constructor
    · rintro ⟨y, hy, rest, hrest, rfl⟩
      exact ⟨y, rest, hy, hrest, rfl⟩
    · rintro ⟨y, rest, hy, hrest, rfl⟩
      exact ⟨y, hy, rest, hrest, rfl⟩

namespace Schema

namespace Document

variable {α : Type} {readItem : Source → Option α} {writeItem : α → Json} {source : Source}

/-! ## What is read -/

/-- What holds of all items that can be read holds of the values of a dictionary of them. -/
theorem forall_of_readDictionary {p : α → Prop} {d : Dictionary α}
    (hitem : ∀ source a, readItem source = some a → p a) (h : readDictionary readItem source = some d) :
    ∀ entry ∈ d.entries, p entry.2 := by
  intro entry hentry
  cases source with
  | record fields =>
    obtain ⟨entries, hentries, rfl⟩ := Option.map_eq_some_iff.1 h
    have hmem := Dictionary.mem_of_mem_ofList hentry
    obtain ⟨field, -, hfield⟩ := exists_mem_of_forall₂ (mapM_eq_some_iff.1 hentries) hmem
    obtain ⟨value, hvalue, rfl⟩ := Option.map_eq_some_iff.1 hfield
    exact hitem _ _ hvalue
  | _ => cases h

/-- What holds of all values that can be read and of the default holds of a field that has one. -/
theorem of_optional {p : α → Prop} {fields : List (String × Source)} {name : String} {default a : α}
    (hitem : ∀ source a, readItem source = some a → p a) (hdefault : p default)
    (h : Document.optional fields name readItem default = some a) : p a := by
  unfold Document.optional at h
  split at h
  · exact hitem _ _ h
  · cases h
    exact hdefault

/-- A kind that is read comes from a text. -/
theorem isNamed_of_readRelation {r : RelationDefinition} (h : readRelation source = some r) :
    r.kind.IsNamed := by
  unfold readRelation at h
  simp only [Option.bind_eq_bind, Option.bind_eq_some_iff, Option.some_inj] at h
  obtain ⟨_, _, kind, _, _, _, _, _, _, _, _, _, _, _, _, _, rfl⟩ := h
  exact RelationKind.isNamed_ofText kind

/-- So do the kinds of all relations of a model that is read. -/
theorem kindsNamed_of_readModel {m : ModelDefinition} (h : readModel source = some m) :
    m.KindsNamed := by
  unfold readModel at h
  simp only [Option.bind_eq_bind, Option.bind_eq_some_iff, Option.some_inj] at h
  obtain ⟨_, _, _, _, _, _, _, _, relations, hrelations, _, _, rfl⟩ := h
  refine of_optional (p := fun d => ∀ entry ∈ d.entries, entry.2.kind.IsNamed) ?_ ?_ hrelations
  · intro source d hd
    exact forall_of_readDictionary (fun _ _ => isNamed_of_readRelation) hd
  · exact List.forall_mem_nil _

/-- So do the kinds of all relations of a schema that is read. -/
theorem kindsNamed_of_readSchema {s : Schema} (h : readSchema source = some s) : s.KindsNamed := by
  unfold readSchema at h
  simp only [Option.bind_eq_bind, Option.bind_eq_some_iff, Option.some_inj] at h
  obtain ⟨_, _, models, hmodels, rfl⟩ := h
  refine of_optional (p := fun d => ∀ entry ∈ d.entries, entry.2.KindsNamed) ?_ ?_ hmodels
  · intro source d hd
    exact forall_of_readDictionary (fun _ _ => kindsNamed_of_readModel) hd
  · exact List.forall_mem_nil _

/-! ## What is written -/

/-- The reader gives back what the writer was given. -/
def ReadsBack (readItem : Source → Option α) (writeItem : α → Json) (a : α) : Prop :=
  readItem (.ofJson (writeItem a)) = some a

/-- The items of an array are sources one by one. -/
theorem ofJsonItems_eq_map (items : List Json) : Source.ofJsonItems items = items.map .ofJson := by
  induction items with
  | nil => rfl
  | cons item items ih => rw [Source.ofJsonItems, ih, List.map_cons]

/-- The fields of an object are sources one by one. -/
theorem ofJsonFields_eq_map (fields : List (String × Json)) :
    Source.ofJsonFields fields = fields.map fun field => (field.1, .ofJson field.2) := by
  induction fields with
  | nil => rfl
  | cons field fields ih => rw [Source.ofJsonFields, ih, List.map_cons]

theorem readsBack_text (text : String) : ReadsBack readText .string text := rfl

/-- A text that may be missing is written as itself or as null. -/
theorem readsBack_optionalText (text : Option String) :
    ReadsBack readOptionalText writeOptionalText text := by
  cases text <;> rfl

/-- A list is read back if its items are. -/
theorem readsBack_list {items : List α} (h : ∀ a ∈ items, ReadsBack readItem writeItem a) :
    ReadsBack (readList readItem) (fun items => .array (items.map writeItem)) items := by
  unfold ReadsBack
  rw [Source.ofJson, ofJsonItems_eq_map, List.map_map, readList, mapM_eq_some_iff,
    List.forall₂_map_left_iff, List.forall₂_same]
  exact h

/-- A dictionary is read back if its entries are; no key comes twice. -/
theorem readsBack_dictionary {d : Dictionary α}
    (h : ∀ entry ∈ d.entries, ReadsBack readItem writeItem entry.2) :
    ReadsBack (readDictionary readItem) (writeDictionary writeItem) d := by
  unfold ReadsBack
  have hentries : (d.entries.map fun entry => (entry.1, Source.ofJson (writeItem entry.2))).mapM
      (fun field => (readItem field.2).map fun value => (field.1, value)) = some d.entries := by
    rw [mapM_eq_some_iff, List.forall₂_map_left_iff, List.forall₂_same]
    intro entry hentry
    dsimp only
    rw [h entry hentry, Option.map_some]
  rw [writeDictionary, Source.ofJson, ofJsonFields_eq_map, List.map_map, readDictionary]
  refine (congrArg _ hentries).trans ?_
  rw [Option.map_some, Dictionary.ofList_entries]

theorem readsBack_column (c : ColumnDefinition) : ReadsBack readColumn writeColumn c := rfl

/-- A relation is read back if its kind has a name. -/
theorem readsBack_relation {r : RelationDefinition} (h : r.kind.IsNamed) :
    ReadsBack readRelation writeRelation r := by
  have hfields : readRecord relationFields (.ofJson (writeRelation r)) = some
      [("kind", .text r.kind.text), ("target", .ofJson (writeOptionalText r.target)),
        ("foreign_key", .ofJson (writeOptionalText r.foreignKey)),
        ("join_table", .ofJson (writeOptionalText r.joinTable)),
        ("association_foreign_key", .ofJson (writeOptionalText r.associationForeignKey)),
        ("through", .ofJson (writeOptionalText r.through)),
        ("source", .ofJson (writeOptionalText r.source))] := rfl
  have hkind : RelationKind.ofText r.kind.text = r.kind := h
  have htext : ∀ text, readOptionalText (.ofJson (writeOptionalText text)) = some text :=
    readsBack_optionalText
  unfold ReadsBack readRelation
  rw [hfields]
  simp [required, Document.optional, Json.lookup?, readText, htext, hkind]

/-- A model is read back if the kinds of its relations have names. -/
theorem readsBack_model {m : ModelDefinition} (h : m.KindsNamed) : ReadsBack readModel writeModel m := by
  have hcolumns : ReadsBack (readList readColumn) _ m.columns :=
    readsBack_list fun c _ => readsBack_column c
  have hrelations : ReadsBack (readDictionary readRelation) _ m.relations :=
    readsBack_dictionary fun entry hentry => readsBack_relation (h entry hentry)
  have hhidden : ReadsBack (readList readText) _ m.hidden :=
    readsBack_list fun text _ => readsBack_text text
  have hfields : readRecord modelFields (.ofJson (writeModel m)) = some
      [("table", .text m.table), ("primary_key", .text m.primaryKey),
        ("columns", .ofJson (.array (m.columns.map writeColumn))),
        ("relations", .ofJson (writeDictionary writeRelation m.relations)),
        ("protected", .ofJson (.array (m.hidden.map Json.string)))] := rfl
  unfold ReadsBack at hcolumns hrelations hhidden ⊢
  unfold readModel
  rw [hfields]
  simp [required, Document.optional, Json.lookup?, readText, hcolumns, hrelations, hhidden]

/-- A schema is read back if the kinds of its relations have names. -/
theorem readsBack_schema {s : Schema} (h : s.KindsNamed) : ReadsBack readSchema writeSchema s := by
  have hmodels : ReadsBack (readDictionary readModel) _ s.models :=
    readsBack_dictionary fun entry hentry => readsBack_model (h entry hentry)
  have hfields : readRecord ["models"] (.ofJson (writeSchema s)) = some
      [("models", .ofJson (writeDictionary writeModel s.models))] := rfl
  unfold ReadsBack at hmodels ⊢
  unfold readSchema
  rw [hfields]
  simp [Document.optional, Json.lookup?, hmodels]

/-! ## As text -/

theorem numberless_optionalText {depth : Nat} (text : Option String) :
    (writeOptionalText text).Numberless depth := by
  cases text with
  | none => exact .null
  | some s => exact .string

/-- A dictionary is written without numbers if its entries are, one level deeper. -/
theorem numberless_dictionary {depth : Nat} {d : Dictionary α}
    (h : ∀ a, (writeItem a).Numberless depth) :
    (writeDictionary writeItem d).Numberless (depth + 1) := by
  constructor
  intro field hfield
  obtain ⟨entry, -, rfl⟩ := List.mem_map.1 hfield
  exact h entry.2

/-- A list is written without numbers if its items are, one level deeper. -/
theorem numberless_list {depth : Nat} {items : List α} (h : ∀ a, (writeItem a).Numberless depth) :
    (Json.array (items.map writeItem)).Numberless (depth + 1) := by
  constructor
  intro item hitem
  obtain ⟨a, -, rfl⟩ := List.mem_map.1 hitem
  exact h a

theorem numberless_column (c : ColumnDefinition) : (writeColumn c).Numberless 1 := by
  constructor
  intro field hfield
  simp only [List.mem_cons, List.not_mem_nil, or_false] at hfield
  rcases hfield with rfl | rfl <;> exact .string

theorem numberless_relation (r : RelationDefinition) : (writeRelation r).Numberless 1 := by
  constructor
  intro field hfield
  simp only [List.mem_cons, List.not_mem_nil, or_false] at hfield
  rcases hfield with rfl | rfl | rfl | rfl | rfl | rfl | rfl
  · exact .string
  all_goals exact numberless_optionalText _

theorem numberless_model (m : ModelDefinition) : (writeModel m).Numberless 3 := by
  constructor
  intro field hfield
  simp only [List.mem_cons, List.not_mem_nil, or_false] at hfield
  rcases hfield with rfl | rfl | rfl | rfl | rfl
  · exact .string
  · exact .string
  · exact numberless_list numberless_column
  · exact numberless_dictionary numberless_relation
  · exact numberless_list fun _ => .string

/-- The brackets of a schema document stand at most five deep. -/
theorem numberless_schema (s : Schema) : (writeSchema s).Numberless 5 := by
  constructor
  intro field hfield
  obtain rfl := List.mem_singleton.1 hfield
  exact numberless_dictionary numberless_model

end Document

/-! ## Round trips -/

variable {s : Schema} {source : Source} {text : String}

/-- A source is a schema if it is read as one. -/
theorem ofSource_eq_ok_iff : ofSource source = .ok s ↔ Document.readSchema source = some s := by
  unfold ofSource
  cases Document.readSchema source <;> simp

/-- What is written of a schema that was read is read as the same schema. -/
theorem ofDocument_writeSchema (h : ofSource source = .ok s) :
    ofDocument (Document.writeSchema s) = .ok s := by
  apply ofSource_eq_ok_iff.2
  exact Document.readsBack_schema (Document.kindsNamed_of_readSchema (ofSource_eq_ok_iff.1 h))

/-- A written schema has no numbers and is not deep, so its compact text is read as it was. -/
theorem read_compact_writeSchema (s : Schema) :
    Json.read (Document.writeSchema s).compact = some (Document.writeSchema s) :=
  (Document.numberless_schema s).read_compact (by decide)

/-- A schema that was loaded is loaded again from the document that is written of it, as a value and
from any text that denotes the value, the compact one among them. -/
theorem load_writeSchema (h : loadText text = .ok s) :
    load (Document.writeSchema s) = .ok s ∧
      loadText (Document.writeSchema s).compact = .ok s ∧
      ∀ written, Json.read written = some (Document.writeSchema s) → loadText written = .ok s := by
  obtain ⟨read, hread, hvalid⟩ := bind_eq_ok_iff.1 h
  obtain rfl : read = s := by
    obtain ⟨_, _, hpure⟩ := bind_eq_ok_iff.1 hvalid
    exact pure_eq_ok_iff.1 hpure
  -- what was read has kinds with names only, so writing it undoes reading it
  have hdocument : ofDocument (Document.writeSchema read) = .ok read := by
    unfold ofText at hread
    split at hread
    · exact ofDocument_writeSchema hread
    · cases hread
  -- any text of the written document denotes it, and validation does not look at the text
  have htext : ∀ written, Json.read written = some (Document.writeSchema read) →
      loadText written = .ok read := by
    intro written hwritten
    exact bind_eq_ok_iff.2 ⟨read, (ofText_eq_ofDocument hwritten).trans hdocument, hvalid⟩
  exact ⟨bind_eq_ok_iff.2 ⟨read, hdocument, hvalid⟩, htext _ (read_compact_writeSchema read), htext⟩

/-- A document that leaves out what has a default and names kinds in several ways. -/
def looseDocument : Json :=
  .object [("models", .object [
    ("Person", .object [("table", .string "people"),
      ("columns", .array [.string "id", .object [("typ", .string "text"), ("name", .string "name")]]),
      ("relations", .object [("articles", .object [("kind", .string "one_to_many"),
        ("target", .string "Article"), ("foreign_key", .string "author_id")])])]),
    ("Article", .object [("table", .string "articles"), ("primary_key", .string "key"),
      ("protected", .array [.string "body"]),
      ("relations", .object [
        ("author", .object [("kind", .string "has_one"), ("target", .string "Person")]),
        ("subject", .object [("target", .string "Person"), ("kind", .string "polymorphic")])])])])]

/-- The kinds of all relations of a schema, model after model. -/
def kinds (s : Schema) : List RelationKind :=
  s.models.entries.flatMap fun model => model.2.relations.entries.map fun relation => relation.2.kind

/-- A document with a bare unknown kind and fields that are not known is loaded again from what is
written of it. -/
theorem load_looseDocument : ∃ s : Schema, loadText looseDocument.compact = .ok s ∧
    s.kinds = [.belongsTo, .unknown "polymorphic", .hasMany] ∧
    load (Document.writeSchema s) = .ok s ∧ loadText (Document.writeSchema s).compact = .ok s := by
  obtain ⟨s, hload, hkinds⟩ : ∃ s : Schema, load looseDocument = .ok s ∧
      s.kinds = [.belongsTo, .unknown "polymorphic", .hasMany] :=
    exists_of_map_toOption (by decide +kernel)
  have hnumberless : looseDocument.Numberless 7 := by simp [looseDocument]
  have hs : loadText looseDocument.compact = .ok s := by
    rw [loadText, ofText_eq_ofDocument (hnumberless.read_compact (by decide))]
    exact hload
  obtain ⟨hvalue, htext, -⟩ := load_writeSchema hs
  exact ⟨s, hs, hkinds, hvalue, htext⟩

end Schema

end DocQuery
