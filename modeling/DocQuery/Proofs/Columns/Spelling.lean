import Mathlib.Logic.Relation
import DocQuery.Proofs.Build.Context
import DocQuery.Proofs.Text.Split

namespace DocQuery

/-! # How columns are spelled

A column can be written with points and slashes, and with `self` wherever a segment can stand. Two
texts name one column exactly if the one is respelled as the other by such steps; the text that a
column is printed as is the shortest of its spellings with points. So an entry of a query can have
its columns respelled and its ordinal changed, and the query compiles as before. Only the names of
functions are compared as they are written.

* `respelled_iff`: two texts are respelled as each other exactly if they have one list of segments.
* `compile_respelled_iff`: a query with respelled columns compiles as before.
* `canonical_spelling`: segments, printing and reading back, equality and plans, taken together.
-/

variable {s : Schema}

namespace Column

/-! ## Segments of a text -/

/-- The characters between segments. -/
def isSeparator (c : Char) : Bool := c == '.' || c == '/'

/-- The segments of a text, as characters. -/
def segmentChars (text : List Char) : List (List Char) :=
  (text.splitOnP isSeparator).filter (· != selfSegment.toList)

/-- The segments of a text are made from its characters. -/
theorem segmentsOf_eq_map (spec : String) :
    segmentsOf spec = (segmentChars spec.toList).map String.ofList := by
  unfold segmentsOf segmentChars
  rw [List.filter_map]
  refine congrArg _ (List.filter_congr ?_)
  intro piece _
  rw [Function.comp_apply, bne, bne, Bool.not_inj_iff, Bool.beq_eq_decide_eq, Bool.beq_eq_decide_eq]
  exact decide_eq_decide.2 ⟨fun h => by rw [← h, String.toList_ofList], fun h => by
    rw [h, String.ofList_toList]⟩

/-- A separator parts the segments in front of it from those behind it. -/
theorem segmentChars_append_separator {c : Char} (hc : isSeparator c = true) (front back : List Char) :
    segmentChars (front ++ c :: back) = segmentChars front ++ segmentChars back := by
  rw [segmentChars, List.splitOnP_append_cons _ _ hc, List.filter_append]
  rfl

/-- `self` names nothing. -/
theorem segmentChars_self : segmentChars selfSegment.toList = [] := by decide

/-- A column read from a text has the segments of the text. -/
theorem segments_ofText (m : Model s) (spec : String) : (ofText m spec).segments = segmentsOf spec := by
  rw [segments, ofText]
  rcases List.eq_nil_or_concat' (segmentsOf spec) with hnil | ⟨front, last, hconcat⟩
  · rw [hnil]
    rfl
  · rw [hconcat]
    simp

/-- Columns read from one model are equal if their texts have the same segments. -/
theorem ofText_eq_iff {m : Model s} {spec spec' : String} :
    ofText m spec' = ofText m spec ↔ segmentChars spec'.toList = segmentChars spec.toList := by
  constructor
  · intro h
    have hsegments := congrArg segments h
    rw [segments_ofText, segments_ofText, segmentsOf_eq_map, segmentsOf_eq_map] at hsegments
    exact List.map_injective_iff.2 (fun _ _ => String.ofList_inj.1) hsegments
  · intro h
    rw [ofText, ofText, segmentsOf_eq_map, segmentsOf_eq_map, h]

/-- A segment has no separator in it and is not `self`. -/
theorem mem_segmentChars {text segment : List Char} (h : segment ∈ segmentChars text) :
    (∀ c ∈ segment, isSeparator c = false) ∧ segment ≠ selfSegment.toList := by
  obtain ⟨hpiece, hself⟩ := List.mem_filter.1 h
  exact ⟨forall_not_of_mem_splitOnP hpiece, by simpa using hself⟩

/-! ## Respelling -/

/-- One step of respelling: another separator, or a segment `self` more. -/
inductive Respelling : List Char → List Char → Prop where
  | separator {front back : List Char} {sep sep' : Char} (is : isSeparator sep = true)
      (is' : isSeparator sep' = true) : Respelling (front ++ sep :: back) (front ++ sep' :: back)
  /-- In front of a segment. -/
  | before {front back : List Char} {sep : Char} (is : isSeparator sep = true)
      (start : ∀ c, front.getLast? = some c → isSeparator c = true) :
      Respelling (front ++ back) (front ++ (selfSegment.toList ++ sep :: back))
  /-- Behind a segment. -/
  | behind {front back : List Char} {sep : Char} (is : isSeparator sep = true)
      (stop : ∀ c, back.head? = some c → isSeparator c = true) :
      Respelling (front ++ back) (front ++ sep :: (selfSegment.toList ++ back))

/-- The second text comes of the first by steps of respelling and such steps taken back. -/
def Respelled (spec spec' : String) : Prop :=
  Relation.EqvGen Respelling spec.toList spec'.toList

variable {text text' : List Char}

/-- A step of respelling keeps the segments. -/
theorem Respelling.segmentChars_eq (h : Respelling text text') :
    segmentChars text' = segmentChars text := by
  -- a separator is replaced by another, or `self` and a separator are dropped in front or behind
  cases h with
  | separator is is' => rw [segmentChars_append_separator is, segmentChars_append_separator is']
  | @before front back sep is start =>
    have hself : segmentChars (selfSegment.toList ++ sep :: back) = segmentChars back := by
      rw [segmentChars_append_separator is, segmentChars_self, List.nil_append]
    rcases List.eq_nil_or_concat' front with rfl | ⟨front, c, rfl⟩
    · rw [List.nil_append, hself, List.nil_append]
    · have hc := start c (by simp)
      rw [List.append_assoc, List.append_assoc, List.singleton_append, List.singleton_append,
        segmentChars_append_separator hc, segmentChars_append_separator hc, hself]
  | @behind front back sep is stop =>
    rw [segmentChars_append_separator is]
    cases back with
    | nil => rw [List.append_nil, List.append_nil, segmentChars_self, List.append_nil]
    | cons c back =>
      have hc := stop c rfl
      rw [segmentChars_append_separator hc, segmentChars_append_separator hc, segmentChars_self,
        List.nil_append]

/-- So any number of steps, in either direction, keeps the segments. -/
theorem segmentChars_of_eqvGen (h : Relation.EqvGen Respelling text text') :
    segmentChars text' = segmentChars text := by
  induction h with
  | rel _ _ step => exact step.segmentChars_eq
  | refl => rfl
  | symm _ _ _ ih => exact ih.symm
  | trans _ _ _ _ _ ih ih' => exact ih'.trans ih

/-! ## Printing -/

/-- Segments with points between them, or `self` where there is none. -/
def printed (segments : List (List Char)) : List Char :=
  if segments = [] then selfSegment.toList else ['.'].intercalate segments

/-- A column is printed as its segments with points between. -/
theorem toList_text (m : Model s) (spec : String) :
    (ofText m spec).text.toList = printed (segmentChars spec.toList) := by
  rw [text, segments_ofText, segmentsOf_eq_map, printed]
  cases segmentChars spec.toList with
  | nil => rfl
  | cons segment rest =>
    rw [if_neg (by simp), if_neg (List.cons_ne_nil _ _), String.toList_intercalate, List.map_map]
    congr 1
    simp

/-- What is printed is read as the segments. -/
theorem segmentChars_printed {segments : List (List Char)}
    (h : ∀ segment ∈ segments, (∀ c ∈ segment, isSeparator c = false) ∧ segment ≠ selfSegment.toList) :
    segmentChars (printed segments) = segments := by
  rw [printed]
  split
  · rename_i hnil
    rw [segmentChars_self, hnil]
  · rename_i hne
    have hplain := fun segment hsegment => (h segment hsegment).1
    rw [segmentChars, splitOnP_intercalate (by decide) hne hplain, List.filter_eq_self]
    intro segment hsegment
    simpa using (h segment hsegment).2

/-- All separators can be made points, behind any text. -/
theorem respelled_points (done rest : List Char) : Relation.EqvGen Respelling (done ++ rest)
    (done ++ rest.map fun c => if isSeparator c then '.' else c) := by
  induction rest generalizing done with
  | nil => exact .refl _
  | cons c rest ih =>
    have hrest := ih (done ++ [if isSeparator c then '.' else c])
    rw [List.append_assoc, List.append_assoc, List.singleton_append, List.singleton_append] at hrest
    refine .trans _ _ _ ?_ hrest
    by_cases hc : isSeparator c = true
    · rw [if_pos hc]
      exact .rel _ _ (.separator hc (by decide))
    · rw [if_neg hc]
      exact .refl _

/-- Writing points for the separators is splitting at them and joining with points. -/
theorem intercalate_splitOnP_points (text : List Char) :
    ['.'].intercalate (text.splitOnP isSeparator) =
      text.map fun c => if isSeparator c then '.' else c := by
  induction text with
  | nil => rfl
  | cons c text ih =>
    obtain ⟨front, parts, hsplit⟩ := exists_splitOnP isSeparator text
    rw [hsplit] at ih
    by_cases hc : isSeparator c = true
    · rw [splitOnP_cons_separator hc, hsplit, List.intercalate_cons_cons, ih, List.map_cons, if_pos hc]
      rfl
    · rw [splitOnP_cons_of_not (by simpa using hc) hsplit, List.map_cons, if_neg hc, ← ih]
      cases parts with
      | nil => simp
      | cons next parts => simp [List.intercalate_cons_cons]

/-- Behind a segment each further one has a point in front of it. -/
theorem intercalate_append_points {done : List (List Char)} (hne : done ≠ [])
    (pieces : List (List Char)) : ['.'].intercalate (done ++ pieces) =
      ['.'].intercalate done ++ pieces.flatMap ('.' :: ·) := by
  induction done with
  | nil => exact absurd rfl hne
  | cons piece done ih =>
    -- the point behind the last of the pieces in front is the first of those behind
    cases done with
    | nil =>
      clear ih
      induction pieces generalizing piece with
      | nil => simp
      | cons next pieces ih =>
        have hnext := ih next (by simp)
        simp only [List.singleton_append, List.intercalate_singleton] at hnext ⊢
        rw [List.intercalate_cons_cons, hnext]
        simp
    | cons next done =>
      have hrest := ih (List.cons_ne_nil _ _)
      rw [List.cons_append, List.cons_append, List.intercalate_cons_cons, ← List.cons_append, hrest,
        List.intercalate_cons_cons]
      simp

/-- Segments `self` can be taken out one after the other. In front of the first other segment they
stand before what follows, and after it behind what they follow. -/
theorem respelled_without_self (pieces : List (List Char)) (done : List (List Char)) :
    Relation.EqvGen Respelling (printed (done ++ pieces))
      (printed (done ++ pieces.filter (· != selfSegment.toList))) := by
  induction pieces generalizing done with
  | nil => exact .refl _
  | cons piece pieces ih =>
    -- a `self` is dropped with the point in front of it, or, as the first piece, with the point
    -- behind it
    by_cases hself : piece = selfSegment.toList
    · rw [List.filter_cons_of_neg (by simp [hself])]
      refine .trans _ _ _ (.symm _ _ ?_) (ih done)
      subst hself
      -- at the front the point behind goes
      by_cases hdone : done = []
      · subst hdone
        cases pieces with
        | nil => exact .refl _
        | cons next pieces =>
          have hstep : Respelling _ _ := @Respelling.before [] (['.'].intercalate (next :: pieces)) '.'
            (by decide) (by simp)
          simp only [List.nil_append, printed, if_neg (List.cons_ne_nil _ _), List.intercalate_cons_cons]
          exact .rel _ _ hstep
      · have hstep : Respelling _ _ := @Respelling.behind (['.'].intercalate done)
          (pieces.flatMap ('.' :: ·)) '.' (by decide) ?_
        · rw [printed, printed, if_neg (by simp [hdone]), if_neg (by simp),
            intercalate_append_points hdone, intercalate_append_points hdone]
          exact .rel _ _ hstep
        · intro c hc
          cases pieces with
          | nil => cases hc
          | cons next pieces =>
            cases hc
            decide
    · rw [List.filter_cons_of_pos (by simpa using hself)]
      have hrest := ih (done ++ [piece])
      rw [List.append_assoc, List.append_assoc] at hrest
      exact hrest

/-- A text is respelled as what its segments are printed as. -/
theorem respelled_printed (text : List Char) :
    Relation.EqvGen Respelling text (printed (segmentChars text)) := by
  have hpoints := respelled_points [] text
  rw [List.nil_append, List.nil_append, ← intercalate_splitOnP_points] at hpoints
  have hprinted : printed (text.splitOnP isSeparator) =
      ['.'].intercalate (text.splitOnP isSeparator) :=
    if_neg (List.splitOnP_ne_nil _ _)
  have hself := respelled_without_self (text.splitOnP isSeparator) []
  rw [List.nil_append, hprinted] at hself
  exact .trans _ _ _ hpoints hself

/-- Texts with the same segments, and no others, are respelled as each other. -/
theorem respelled_iff {spec spec' : String} :
    Respelled spec spec' ↔ segmentChars spec'.toList = segmentChars spec.toList := by
  constructor
  · exact segmentChars_of_eqvGen
  · intro h
    refine .trans _ _ _ (respelled_printed _) (.symm _ _ ?_)
    rw [← h]
    exact respelled_printed _

/-- Two texts name one column exactly if the one is respelled as the other. -/
theorem ofText_eq_iff_respelled {m : Model s} {spec spec' : String} :
    ofText m spec' = ofText m spec ↔ Respelled spec spec' :=
  ofText_eq_iff.trans respelled_iff.symm

/-- The text that a column is printed as has the segments of its spelling. -/
theorem segmentChars_text (m : Model s) (spec : String) :
    segmentChars (ofText m spec).text.toList = segmentChars spec.toList := by
  rw [toList_text, segmentChars_printed fun _ => mem_segmentChars]

/-- Columns of one model are equal if they are printed alike. -/
theorem ofText_eq_iff_text_eq {m : Model s} {spec spec' : String} :
    ofText m spec' = ofText m spec ↔ (ofText m spec').text = (ofText m spec).text := by
  constructor
  · intro h
    rw [h]
  · intro h
    rw [ofText_eq_iff, ← segmentChars_text m spec', h, segmentChars_text]

/-- The segments of a column have no separators in them, and none is `self`. -/
theorem mem_segments_ofText {m : Model s} {spec segment : String}
    (h : segment ∈ (ofText m spec).segments) :
    '.' ∉ segment.toList ∧ '/' ∉ segment.toList ∧ segment ≠ selfSegment := by
  rw [segments_ofText, segmentsOf_eq_map] at h
  obtain ⟨chars, hchars, rfl⟩ := List.mem_map.1 h
  obtain ⟨hseparator, hself⟩ := mem_segmentChars hchars
  rw [String.toList_ofList]
  refine ⟨?_, ?_, ?_⟩
  · intro hpoint
    cases hseparator _ hpoint
  · intro hslash
    cases hseparator _ hslash
  · intro heq
    exact hself (by rw [← heq, String.toList_ofList])

end Column

/-! ## Entries -/

namespace Condition

/-- Two keys for one value, with any ordinals. They have the same operator, and their columns are
respelled one by one; before the operator of the functions they are the same as they are written. -/
structure KeyRespelled (key key' : Key) : Prop where
  operator : key'.operator = key.operator
  columns : List.Forall₂ Column.Respelled key.columns key'.columns
  function : key.operator = ":" → key'.columns = key.columns

/-- In the second document the key of an entry is respelled; other entries stand before and after
it. -/
inductive Respells : List (String × Json) → List (String × Json) → Prop where
  | entry {front back : List (String × Json)} {text text' : String} {value : Json} {key key' : Key}
      (parsed : Key.parse text = some key) (parsed' : Key.parse text' = some key')
      (respelled : KeyRespelled key key') :
      Respells (front ++ (text, value) :: back) (front ++ (text', value) :: back)

variable {m : Model s} {K : Model s → Prop} {key key' : Key} {text text' : String} {value : Json}
  {fields fields' : List (String × Json)}

theorem KeyRespelled.symm (h : KeyRespelled key key') : KeyRespelled key' key where
  operator := h.operator.symm
  columns := h.columns.flip.imp fun _ _ hspec => .symm _ _ hspec
  function := fun hcolon => (h.function (h.operator.symm.trans hcolon)).symm

/-- Respelling can be undone. -/
theorem Respells.symm (h : Respells fields fields') : Respells fields' fields := by
  cases h with
  | entry parsed parsed' respelled => exact .entry parsed' parsed respelled.symm

/-- Respelled columns are the same columns. -/
theorem KeyRespelled.map_ofText (h : KeyRespelled key key') (m : Model s) :
    key'.columns.map (Column.ofText m) = key.columns.map (Column.ofText m) := by
  have hcolumns : List.Forall₂ (· = ·) (key'.columns.map (Column.ofText m))
      (key.columns.map (Column.ofText m)) := by
    rw [List.forall₂_map_left_iff, List.forall₂_map_right_iff]
    exact h.columns.flip.imp fun _ _ => Column.ofText_eq_iff_respelled.2
  rwa [List.forall₂_eq_eq_eq] at hcolumns

/-- The rule of a key stays: it depends on the spelling before the operator of the functions only. -/
theorem KeyRespelled.find? (h : KeyRespelled key key') {rule : Rule}
    (hrule : Rule.find? key.operator (key.columns.head?.getD "") value = some rule) :
    Rule.find? key'.operator (key'.columns.head?.getD "") value = some rule := by
  rw [h.operator]
  by_cases hcolon : key.operator = ":"
  · rw [h.function hcolon]
    exact hrule
  · obtain ⟨htable, hoperator, -⟩ := Rule.mem_of_find? hrule
    apply Rule.find?_of_name _ hrule
    intro hform
    exact hcolon (hoperator.symm.trans ((Rule.form_function_iff rule htable).1 hform))

/-- What is read of an entry is read of the entry with its key respelled. -/
theorem KeyRespelled.ofEntry (h : KeyRespelled key key') (parsed : Key.parse text = some key)
    (parsed' : Key.parse text' = some key') {readers : List (DocumentReader s)} {c : Condition s}
    (hread : ofEntry m text value readers = .ok c) : ofEntry m text' value readers = .ok c := by
  obtain ⟨other, rule, hkey, hrule, hmade⟩ := ofEntry_eq_ok_iff.1 hread
  obtain rfl : key = other := Option.some.inj (parsed.symm.trans hkey)
  refine ofEntry_eq_ok_iff.2 ⟨key', rule, parsed', h.find? hrule, ?_⟩
  rw [h.map_ofText]
  exact hmade

/-- There is an entry to respell. -/
theorem Respells.ne_nil (h : Respells fields fields') : fields ≠ [] ∧ fields' ≠ [] := by
  cases h with
  | entry => simp

/-- Documents with a respelled entry are read alike. -/
theorem Respells.readReplaced (h : Respells fields fields') :
    ReadReplaced K (ofFields fields) (ofFields fields') := by
  cases h with
  | entry parsed parsed' respelled =>
    refine readReplaced_of_entry ?_ _ _
    intro m c hread
    exact respelled.ofEntry parsed parsed' hread

end Condition

/-! ## Queries -/

namespace Query

open Condition

variable {query query' : Json} {model : String} {config : Config} {plan : Plan}

/-- Wherever the key of an entry is respelled in a query, the query compiles as before, to the same
plan. -/
theorem compile_respelled_iff (h : Rewrites Respells query query') :
    compile s model query config = .ok plan ↔ compile s model query' config = .ok plan :=
  compile_iff_of_rewrites (fun _ _ hentry => hentry.ne_nil) (fun _ _ hentry => hentry.symm)
    (fun _ _ hentry => hentry.readReplaced) h

/-- A column has one canonical form, that in which it is printed: it is read back as the column, and
equal columns are those that are printed alike, which are those whose texts are respelled as each
other. So the key of an entry can be respelled wherever the entry stands in a query. -/
theorem canonical_spelling (s : Schema) :
    (∀ (m : Model s) (spec : String),
      (∀ segment ∈ (Column.ofText m spec).segments,
        '.' ∉ segment.toList ∧ '/' ∉ segment.toList ∧ segment ≠ "self") ∧
      Column.ofText m (Column.ofText m spec).text = Column.ofText m spec ∧
      ∀ spec', (Column.ofText m spec' = Column.ofText m spec ↔ Column.Respelled spec spec') ∧
        (Column.ofText m spec' = Column.ofText m spec ↔
          (Column.ofText m spec').text = (Column.ofText m spec).text)) ∧
    ∀ query query', Rewrites Respells query query' → ∀ model config plan,
      compile s model query config = .ok plan ↔ compile s model query' config = .ok plan := by
  -- the columns of a text first, then the queries with such columns in them
  constructor
  · intro m spec
    refine ⟨fun _ => Column.mem_segments_ofText, ?_, fun spec' => ⟨?_, ?_⟩⟩
    · exact Column.ofText_eq_iff.2 (Column.segmentChars_text m spec)
    · exact Column.ofText_eq_iff_respelled
    · exact Column.ofText_eq_iff_text_eq
  · intro query query' hrespelled model config plan
    exact compile_respelled_iff hrespelled

/-- A query for people with an article of one of two titles, or with an author of one of these
names. -/
def titledOrWritten (key : String) : Json :=
  .object
    [("articles=>", .object
      [("rating>", .number (.int 3)), (key, .array [.string "Loops", .string "Roe"])]),
      ("order:", .string "surname")]

theorem canonical_spelling_titledOrWritten : ∃ plan,
    compile Schema.people "Person" (titledOrWritten "2:title|author.surname=") {} = .ok plan ∧
    compile Schema.people "Person" (titledOrWritten "self/title|author/self.surname/self=") {} =
      .ok plan ∧
    plan.bindings.map Prod.fst = ["p1", "p2", "p3"] := by
  have hnames : (compile Schema.people "Person"
      (titledOrWritten "2:title|author.surname=") {}).toOption.map
      (fun plan => plan.bindings.map Prod.fst) = some ["p1", "p2", "p3"] := by
    decide +kernel
  obtain ⟨plan, hplan, hthree⟩ := exists_of_map_toOption hnames
  have harticles : Key.parse "articles=>" = some ⟨none, ["articles"], "=>"⟩ := by decide +kernel
  have hkey : Key.parse "2:title|author.surname=" =
      some ⟨some "2", ["title", "author.surname"], "="⟩ := by decide +kernel
  have hkey' : Key.parse "self/title|author/self.surname/self=" =
      some ⟨none, ["self/title", "author/self.surname/self"], "="⟩ := by decide +kernel
  have hrespelled : KeyRespelled ⟨some "2", ["title", "author.surname"], "="⟩
      ⟨none, ["self/title", "author/self.surname/self"], "="⟩ := by
    refine ⟨rfl, .cons ?_ (.cons ?_ .nil), fun hcolon => absurd hcolon (by decide)⟩
    · exact Column.respelled_iff.2 (by decide +kernel)
    · exact Column.respelled_iff.2 (by decide +kernel)
  have hentry : Respells
      ([("rating>", .number (.int 3))] ++
        [("2:title|author.surname=", .array [.string "Loops", .string "Roe"])])
      ([("rating>", .number (.int 3))] ++
        [("self/title|author/self.surname/self=", .array [.string "Loops", .string "Roe"])]) :=
    .entry hkey hkey' hrespelled
  have hrewrites : Rewrites Respells (titledOrWritten "2:title|author.surname=")
      (titledOrWritten "self/title|author/self.surname/self=") :=
    @Rewrites.entry _ [] [("order:", .string "surname")] _ _ _ _ harticles (.inl rfl) (.here hentry)
  have hcompile := (canonical_spelling Schema.people).2 _ _ hrewrites "Person" {} plan
  exact ⟨plan, hplan, hcompile.1 hplan, hthree⟩

end Query

end DocQuery
