import Mathlib.Data.List.Sort
import DocQuery.Dictionary

namespace DocQuery

/-!
# Entries in order

A list of entries in the order of their names holds a name once. It is then known by what stands
under each name, and so is a dictionary.

* `eq_of_find?_eq`: dictionaries that give the same values under all names are the same.
* `ofList_entries`: a dictionary is that of its entries.
-/

variable {α : Type} {name : String} {value : α} {entries entries' : List (String × α)}

theorem mem_of_valueAt? (h : valueAt? name entries = some value) : (name, value) ∈ entries := by
  obtain ⟨⟨other, found⟩, hfound, hvalue⟩ := Option.map_eq_some_iff.1 h
  have hname : other = name := by simpa using List.find?_some hfound
  cases hvalue
  cases hname
  exact List.mem_of_find?_eq_some hfound

/-- In order, an entry of the list is the one that stands under its name. -/
theorem mem_iff_valueAt? (ordered : entries.Pairwise fun a b => a.1 < b.1) :
    (name, value) ∈ entries ↔ valueAt? name entries = some value := by
  constructor
  · intro hmem
    induction entries with
    | nil => cases hmem
    | cons head rest ih =>
      obtain ⟨hhead, hrest⟩ := List.pairwise_cons.1 ordered
      rcases List.mem_cons.1 hmem with rfl | hmem
      · simp [valueAt?]
      · -- the head stands under a smaller name
        have hne : (head.1 == name) = false := by
          rw [beq_eq_false_iff_ne]
          intro heq
          exact String.lt_irrefl _ (heq ▸ hhead _ hmem)
        rw [← ih hrest hmem]
        simp [valueAt?, hne]
  · exact mem_of_valueAt?

/-- Entries in order are known by what stands under each name. -/
theorem eq_of_valueAt?_eq (ordered : entries.Pairwise fun a b => a.1 < b.1)
    (ordered' : entries'.Pairwise fun a b => a.1 < b.1)
    (same : ∀ name, valueAt? name entries = valueAt? name entries') : entries = entries' := by
  have : Std.Irrefl fun a b : String × α => a.1 < b.1 := ⟨fun a => String.lt_irrefl a.1⟩
  have : Std.Antisymm fun a b : String × α => a.1 < b.1 :=
    ⟨fun a b hab hba => absurd (String.lt_trans hab hba) (String.lt_irrefl a.1)⟩
  apply List.Pairwise.eq_of_mem_iff ordered ordered'
  rintro ⟨name, value⟩
  rw [mem_iff_valueAt? ordered, mem_iff_valueAt? ordered', same]

namespace Dictionary

theorem mem_of_find? {d : Dictionary α} (h : d.find? name = some value) : (name, value) ∈ d.entries :=
  mem_of_valueAt? h

theorem eq_of_find?_eq {d e : Dictionary α} (same : ∀ name, d.find? name = e.find? name) : d = e :=
  ext (eq_of_valueAt?_eq d.sorted e.sorted same)

/-- A dictionary holds nothing that is not in the list it is built from. -/
theorem mem_of_mem_ofList {entry : String × α} (h : entry ∈ (ofList entries).entries) :
    entry ∈ entries := by
  -- the fold starts with what has been inserted so far
  have hfold : ∀ start : Dictionary α,
      entry ∈ (entries.foldl (fun d entry => d.insert entry.1 entry.2) start).entries →
      entry ∈ start.entries ∨ entry ∈ entries := by
    clear h
    induction entries with
    | nil => exact fun start h => .inl h
    | cons head rest ih =>
      intro start hmem
      rcases ih _ hmem with hmem | hmem
      · rcases mem_insertEntry hmem with rfl | hmem
        · exact .inr List.mem_cons_self
        · exact .inl hmem
      · exact .inr (List.mem_cons_of_mem _ hmem)
  exact (hfold empty h).resolve_left List.not_mem_nil

/-- A dictionary is built again from its entries. -/
theorem ofList_entries (d : Dictionary α) : ofList d.entries = d := by
  -- what has been put in so far is the value of the last entry under a name
  have hfold : ∀ (entries : List (String × α)) (start : Dictionary α) (name : String),
      (entries.Pairwise fun a b => a.1 < b.1) →
      (entries.foldl (fun d entry => d.insert entry.1 entry.2) start).find? name =
        (valueAt? name entries).or (start.find? name) := by
    intro entries
    induction entries with
    | nil =>
      intro start name _
      rfl
    | cons head rest ih =>
      intro start name ordered
      obtain ⟨hhead, hrest⟩ := List.pairwise_cons.1 ordered
      rw [List.foldl_cons, ih _ _ hrest]
      by_cases hname : head.1 = name
      · have hnone : valueAt? name rest = none := by
          rw [Option.eq_none_iff_forall_ne_some]
          intro value hvalue
          have hlt := hhead _ (mem_of_valueAt? hvalue)
          exact String.lt_irrefl _ (hname ▸ hlt)
        rw [hnone, ← hname, find?_insert_self]
        simp [valueAt?]
      · rw [find?_insert_of_ne _ _ hname]
        simp [valueAt?, hname]
  apply eq_of_find?_eq
  intro name
  rw [ofList, hfold _ _ _ d.sorted, find?_empty, Option.or_none]
  rfl

end Dictionary

end DocQuery
