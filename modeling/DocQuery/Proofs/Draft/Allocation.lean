import DocQuery.Proofs.Document.Access
import DocQuery.Proofs.Draft.Bounded
import DocQuery.Proofs.Draft.Joins

namespace DocQuery

/-! # The search for an alias

The rules of a fresh alias, said without the functions that find it. What stands before a counter is
the longest head of the wanted text that leaves room for the counter; the counters are tried one
after the other until one gives an alias that is not in use. `Search` is that loop with its rounds
counted. It ends because no two counters give the same alias, so at most one round more is run than
there are aliases.

* `search_counter`: the program's counter is the end of the search.
* `Search.unique`: the search has one end.
* `takeAlias_ends_fresh`: which alias is taken: fresh, with the least counter, and as long as fits.
-/

namespace FreshAlias

variable {maxLength : Nat} {used : List String} {wanted made : String} {n : Nat}

/-- What stands before counter `n`: the longest run of whole characters at the start of the wanted
text that is not too long together with the counter, and nothing if the counter alone is too long. -/
structure IsHead (maxLength : Nat) (wanted : String) (n : Nat) (head : List Char) : Prop where
  starts : head <+: wanted.toList
  fits : (suffix n).utf8ByteSize ≤ maxLength →
    String.utf8Len head + (suffix n).utf8ByteSize ≤ maxLength
  longest : ∀ other, other <+: wanted.toList →
    String.utf8Len other + (suffix n).utf8ByteSize ≤ maxLength → other <+: head
  empty : maxLength < (suffix n).utf8ByteSize → head = []

/-- The alias is that of counter `n`. -/
inductive Counted (maxLength : Nat) (wanted : String) (n : Nat) : String → Prop where
  | intro {head : List Char} (isHead : IsHead maxLength wanted n head) :
      Counted maxLength wanted n (String.ofList head ++ "_" ++ toString n)

/-- From counter `n` on the search ends after so many rounds with an alias. -/
inductive Search (maxLength : Nat) (used : List String) (wanted : String) :
    (n rounds : Nat) → (made : String) → Prop where
  | free {n : Nat} {made : String} (counted : Counted maxLength wanted n made) (free : made ∉ used) :
      Search maxLength used wanted n 1 made
  | taken {n rounds : Nat} {tried made : String} (counted : Counted maxLength wanted n tried)
      (taken : tried ∈ used) (further : Search maxLength used wanted (n + 1) rounds made) :
      Search maxLength used wanted n (rounds + 1) made

/-! ## Heads -/

/-- No longer run of whole characters at the start takes up at most `room` bytes. -/
theorem prefix_takeBytes {other cs : List Char} {room : Nat} (hstarts : other <+: cs)
    (hfits : String.utf8Len other ≤ room) : other <+: takeBytes room cs := by
  induction cs generalizing other room with
  | nil => exact hstarts
  | cons c cs ih =>
    cases other with
    | nil => exact List.nil_prefix
    | cons d other =>
      obtain ⟨rfl, hrest⟩ := List.cons_prefix_cons.1 hstarts
      rw [String.utf8Len_cons] at hfits
      rw [takeBytes, if_pos (by omega)]
      exact List.cons_prefix_cons.2 ⟨rfl, ih hrest (by omega)⟩

theorem takeBytes_zero (cs : List Char) : takeBytes 0 cs = [] := by
  cases cs with
  | nil => rfl
  | cons c cs =>
    have hsize := c.utf8Size_pos
    rw [takeBytes, if_neg (by omega)]

theorem isHead_takeBytes (maxLength : Nat) (wanted : String) (n : Nat) :
    IsHead maxLength wanted n
      (takeBytes (maxLength - (suffix n).utf8ByteSize) wanted.toList) where
  starts := takeBytes_prefix _ _
  fits := by
    intro hsuffix
    have hhead := takeBytes_utf8Len_le (maxLength - (suffix n).utf8ByteSize) wanted.toList
    omega
  longest := by
    intro other hstarts hfits
    exact prefix_takeBytes hstarts (by omega)
  empty := by
    intro hsuffix
    rw [Nat.sub_eq_zero_of_le hsuffix.le, takeBytes_zero]

/-- There is only one such head. -/
theorem IsHead.unique {head head' : List Char} (h : IsHead maxLength wanted n head)
    (h' : IsHead maxLength wanted n head') : head = head' := by
  by_cases hsuffix : (suffix n).utf8ByteSize ≤ maxLength
  · have hle := h'.longest head h.starts (h.fits hsuffix)
    have hge := h.longest head' h'.starts (h'.fits hsuffix)
    exact hle.eq_of_length_le hge.length_le
  · rw [h.empty (by omega), h'.empty (by omega)]

/-- The alias of a counter is the one that the search tries. -/
theorem counted_iff : Counted maxLength wanted n made ↔ made = candidate maxLength wanted n := by
  constructor
  · rintro ⟨hhead⟩
    rw [hhead.unique (isHead_takeBytes maxLength wanted n), candidate, suffix, String.append_assoc]
  · rintro rfl
    have hcounted := Counted.intro (isHead_takeBytes maxLength wanted n)
    rwa [String.append_assoc] at hcounted

/-! ## The loop -/

/-- While the aliases of the counters in front of it are in use, the search gets to a counter. -/
theorem search_of_taken {rounds : Nat} (hfree : candidate maxLength wanted (rounds + n) ∉ used)
    (htaken : ∀ k, n ≤ k → k < rounds + n → candidate maxLength wanted k ∈ used) :
    Search maxLength used wanted n (rounds + 1) (candidate maxLength wanted (rounds + n)) := by
  induction rounds generalizing n with
  | zero => exact .free (counted_iff.2 (congrArg _ (Nat.zero_add n))) hfree
  | succ rounds ih =>
    have hnext : rounds + 1 + n = rounds + (n + 1) := by omega
    rw [hnext] at hfree htaken ⊢
    refine .taken (counted_iff.2 rfl) (htaken n le_rfl (by omega)) (ih hfree ?_)
    exact fun k hk hlt => htaken k (by omega) hlt

/-- The search from the first counter ends at the counter that is found, after as many rounds. -/
theorem search_counter (maxLength : Nat) (used : List String) (wanted : String) :
    Search maxLength used wanted 1 (counter maxLength used wanted)
      (candidate maxLength wanted (counter maxLength used wanted)) := by
  have hfirst := counter_firstFree maxLength used wanted
  obtain ⟨rounds, hrounds⟩ := Nat.exists_eq_add_of_le' hfirst.pos
  rw [hrounds] at hfirst ⊢
  exact search_of_taken hfirst.free hfirst.least

/-- The search ends in one way only. -/
theorem Search.unique {rounds rounds' : Nat} {made' : String}
    (h : Search maxLength used wanted n rounds made)
    (h' : Search maxLength used wanted n rounds' made') : rounds = rounds' ∧ made = made' := by
  -- each round tries one candidate, which is free for both searches or taken for both
  induction h generalizing rounds' with
  | free counted free =>
    cases h' with
    | free counted' => exact ⟨rfl, (counted_iff.1 counted).trans (counted_iff.1 counted').symm⟩
    | taken counted' taken' =>
      rw [counted_iff.1 counted, ← counted_iff.1 counted'] at free
      exact absurd taken' free
  | taken counted taken _ ih =>
    cases h' with
    | free counted' free' =>
      rw [counted_iff.1 counted, ← counted_iff.1 counted'] at taken
      exact absurd taken free'
    | taken _ _ further' =>
      obtain ⟨hrounds, hmade⟩ := ih further'
      exact ⟨congrArg (· + 1) hrounds, hmade⟩

end FreshAlias

namespace Draft

variable {s : Schema}

/-- A path without an alias is given the one that is taken for it. -/
theorem aliasOf_eq_takeAlias {d : Draft s} {path : TablePath} (h : d.aliasAt? path = none) :
    d.aliasOf path = ((d.takeAlias (wantedAlias d.config path)).1,
      (d.takeAlias (wantedAlias d.config path)).2.setAlias path
        (d.takeAlias (wantedAlias d.config path)).1) :=
  aliasOf_of_none h

open FreshAlias in
/-- Taking an alias always ends, and with one that was not in use. The wanted text is taken if it
fits and is free. Else the least counter decides whose alias is free; it is found in that many
rounds, at most one more than there are aliases in use. -/
theorem takeAlias_ends_fresh (d : Draft s) (wanted : String) :
    ∃ made e, d.takeAlias wanted = (made, e) ∧
      made ∉ d.usedAliases ∧
      (∀ a, a ∈ e.usedAliases ↔ a = made ∨ a ∈ d.usedAliases) ∧
      e = { d with usedAliases := e.usedAliases } ∧
      (∀ path, d.aliasAt? path = none → wanted = wantedAlias d.config path →
        d.aliasOf path = (made, e.setAlias path made)) ∧
      (wanted.utf8ByteSize ≤ d.config.maxIdentifierLength ∧ wanted ∉ d.usedAliases →
        made = wanted) ∧
      (¬(wanted.utf8ByteSize ≤ d.config.maxIdentifierLength ∧ wanted ∉ d.usedAliases) →
        ∃ n, 1 ≤ n ∧ n ≤ d.usedAliases.toFinset.card + 1 ∧
          Search d.config.maxIdentifierLength d.usedAliases wanted 1 n made ∧
          (∀ rounds other, Search d.config.maxIdentifierLength d.usedAliases wanted 1 rounds other →
            rounds = n ∧ other = made) ∧
          Counted d.config.maxIdentifierLength wanted n made ∧
          (∀ k text, 1 ≤ k → k < n → Counted d.config.maxIdentifierLength wanted k text →
            text ∈ d.usedAliases) ∧
          ((suffix n).utf8ByteSize ≤ d.config.maxIdentifierLength →
            made.utf8ByteSize ≤ d.config.maxIdentifierLength)) ∧
      (d.config.validate = .ok () → d.usedAliases.toFinset.card < 10 ^ 7 →
        made.utf8ByteSize ≤ d.config.maxIdentifierLength) := by
  refine ⟨_, _, rfl, freshAlias_notMem _ _ _, fun a => List.mem_cons, rfl, ?_, ?_, ?_, ?_⟩
  · -- the alias of a path is taken this way, after which the path has it
    rintro path hpath rfl
    exact aliasOf_eq_takeAlias hpath
  · intro htakes
    exact if_pos htakes
  · -- the search ends at the first counter whose candidate is free
    intro htakes
    have hfirst := counter_firstFree d.config.maxIdentifierLength d.usedAliases wanted
    have hsearch := search_counter d.config.maxIdentifierLength d.usedAliases wanted
    rw [freshAlias, if_neg htakes]
    refine ⟨_, hfirst.pos, counter_le _ _ _, hsearch, ?_, counted_iff.2 rfl, ?_,
      utf8ByteSize_candidate_le wanted⟩
    · intro rounds other hother
      exact hother.unique hsearch
    · intro k text hk hlt hcounted
      rw [counted_iff.1 hcounted]
      exact hfirst.least k hk hlt
  · intro hvalid hused
    exact utf8ByteSize_freshAlias_le (Config.room_of_validate hvalid) hused wanted

open FreshAlias in
/-- A head ends in front of a character that there is no room for, and a counter that gives an alias
in use is passed over. -/
theorem takeAlias_passes_over : ∃ m e, Schema.people.model? "Person" = some m ∧
    (withBase m { maxIdentifierLength := 12 } "smql_üü_1" [] 0).takeAlias "smql_üüüüü" =
      ("smql_üü_2", e) ∧
    "smql_üü_2" ∈ e.usedAliases ∧
    (∃ n, Search 12 ["smql_üü_1"] "smql_üüüüü" 1 n "smql_üü_2" ∧
      Counted 12 "smql_üüüüü" n "smql_üü_2") ∧
    (withBase m { maxIdentifierLength := 12 } "smql_üü_1" [] 0).aliasOf
        (.child (.root "people") (.relation "üüüüü")) =
      ("smql_üü_2", e.setAlias (.child (.root "people") (.relation "üüüüü")) "smql_üü_2") ∧
    "smql_üü_2".utf8ByteSize ≤ 12 := by
  obtain ⟨m, hm⟩ : ∃ m, Schema.people.model? "Person" = some m :=
    Option.isSome_iff_exists.1 (by decide +kernel)
  obtain ⟨made, e, hmade, -, hused, -, hpath, -, hcounted, hshort⟩ := takeAlias_ends_fresh
    (withBase m { maxIdentifierLength := 12 } "smql_üü_1" [] 0) "smql_üüüüü"
  have hsecond : freshAlias 12 ["smql_üü_1"] "smql_üüüüü" = "smql_üü_2" := by decide +kernel
  obtain rfl : "smql_üü_2" = made := hsecond.symm.trans (congrArg Prod.fst hmade)
  have hunnamed : (withBase m { maxIdentifierLength := 12 } "smql_üü_1" [] 0).aliasAt?
      (.child (.root "people") (.relation "üüüüü")) = none := by
    simp [aliasAt?, withBase, lookup_cons_eq, TablePath.child, TablePath.root]
  have hlong : ¬("smql_üüüüü".utf8ByteSize ≤ 12 ∧ "smql_üüüüü" ∉ ["smql_üü_1"]) := by decide
  have hvalid : ({ maxIdentifierLength := 12 } : Config).validate = .ok () := rfl
  have hfew : ["smql_üü_1"].toFinset.card < 10 ^ 7 := by decide
  obtain ⟨n, -, -, hsearch, -, hn, -⟩ := hcounted hlong
  exact ⟨m, e, hm, hmade, (hused _).2 (.inl rfl), ⟨n, hsearch, hn⟩, hpath _ hunnamed rfl,
    hshort hvalid hfew⟩

end Draft

end DocQuery
