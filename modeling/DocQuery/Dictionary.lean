/-!
# Dictionaries

Values under names, in the order of the names. The order is part of the type, so a dictionary is
determined by what it holds.
-/

namespace DocQuery

/-- Puts a value under a name into an ordered list; a value that stood there is replaced. -/
def insertEntry {α : Type} (name : String) (value : α) :
    List (String × α) → List (String × α)
  | [] => [(name, value)]
  | (other, old) :: rest =>
    if name < other then (name, value) :: (other, old) :: rest
    else if name = other then (name, value) :: rest
    else (other, old) :: insertEntry name value rest

/-- The value under a name in a list of entries. -/
def valueAt? {α : Type} (name : String) (entries : List (String × α)) : Option α :=
  (entries.find? (·.1 == name)).map (·.2)

/-- What has been inserted is found under its name. -/
theorem valueAt?_insertEntry_self {α : Type} (name : String) (value : α)
    (entries : List (String × α)) :
    valueAt? name (insertEntry name value entries) = some value := by
  induction entries with
  | nil => simp [valueAt?, insertEntry]
  | cons head rest ih =>
    simp only [insertEntry]
    split
    · simp [valueAt?]
    · split
      · simp [valueAt?]
      · rename_i hne
        have hhead : (head.1 == name) = false := by simpa using Ne.symm hne
        simpa [valueAt?, List.find?_cons, hhead] using ih

/-- What stands under other names stays. -/
theorem valueAt?_insertEntry_of_ne {α : Type} {name other : String} (value : α)
    (entries : List (String × α)) (h : name ≠ other) :
    valueAt? other (insertEntry name value entries) = valueAt? other entries := by
  have hname : (name == other) = false := by simpa using h
  induction entries with
  | nil => simp [valueAt?, insertEntry, hname]
  | cons head rest ih =>
    simp only [insertEntry]
    split
    · simp [valueAt?, List.find?_cons, hname]
    · split
      · -- the entry that is replaced has the inserted name, which is not the one looked for
        rename_i heq
        simp [valueAt?, hname, ← heq]
      · cases hhead : head.1 == other with
        | true => simp [valueAt?, hhead]
        | false => simpa [valueAt?, List.find?_cons, hhead] using ih

theorem mem_insertEntry {α : Type} {name : String} {value : α} {entries : List (String × α)}
    {entry : String × α} (h : entry ∈ insertEntry name value entries) :
    entry = (name, value) ∨ entry ∈ entries := by
  induction entries with
  | nil => simpa [insertEntry] using h
  | cons head rest ih =>
    simp only [insertEntry] at h
    split at h
    · simpa using h
    · split at h
      · simp only [List.mem_cons] at h ⊢
        rcases h with h | h
        · exact Or.inl h
        · exact Or.inr (Or.inr h)
      · simp only [List.mem_cons] at h ⊢
        rcases h with h | h
        · exact Or.inr (Or.inl h)
        · rcases ih h with h | h
          · exact Or.inl h
          · exact Or.inr (Or.inr h)

/-- Insertion keeps the order. -/
theorem insertEntry_sorted {α : Type} {name : String} {value : α} {entries : List (String × α)}
    (h : entries.Pairwise fun a b => a.1 < b.1) :
    (insertEntry name value entries).Pairwise fun a b => a.1 < b.1 := by
  induction entries with
  | nil => simp [insertEntry]
  | cons head rest ih =>
    obtain ⟨hhead, hrest⟩ := List.pairwise_cons.1 h
    simp only [insertEntry]
    split
    · -- the name comes before all that is there
      rename_i hlt
      refine List.pairwise_cons.2 ⟨fun b hb => ?_, h⟩
      rcases List.mem_cons.1 hb with rfl | hb
      · exact hlt
      · exact String.lt_trans hlt (hhead b hb)
    · rename_i hnot
      split
      · rename_i heq
        exact List.pairwise_cons.2 ⟨fun b hb => heq ▸ hhead b hb, hrest⟩
      · -- the name comes behind the head, whether it is inserted there or further on
        rename_i hne
        refine List.pairwise_cons.2 ⟨fun b hb => ?_, ih hrest⟩
        rcases mem_insertEntry hb with rfl | hb
        · rcases Std.lt_trichotomy name head.1 with hlt | heq | hgt
          · exact absurd hlt hnot
          · exact absurd heq hne
          · exact hgt
        · exact hhead b hb

/-- Values under names, in the order of the names. -/
structure Dictionary (α : Type) where
  entries : List (String × α)
  sorted : entries.Pairwise fun a b => a.1 < b.1

namespace Dictionary

/-- The dictionary that holds nothing. -/
def empty {α : Type} : Dictionary α := ⟨[], List.Pairwise.nil⟩

instance {α : Type} : EmptyCollection (Dictionary α) := ⟨empty⟩

instance {α : Type} : Inhabited (Dictionary α) := ⟨empty⟩

/-- Puts a value under a name; a value that stood there is replaced. -/
def insert {α : Type} (d : Dictionary α) (name : String) (value : α) : Dictionary α :=
  ⟨insertEntry name value d.entries, insertEntry_sorted d.sorted⟩

/-- The dictionary of a list of entries, the last of several under one name counting. -/
def ofList {α : Type} (entries : List (String × α)) : Dictionary α :=
  entries.foldl (fun d entry => d.insert entry.1 entry.2) empty

/-- The value under a name. -/
def find? {α : Type} (d : Dictionary α) (name : String) : Option α :=
  valueAt? name d.entries

/-- There is a value under the name. -/
def contains {α : Type} (d : Dictionary α) (name : String) : Bool :=
  (d.find? name).isSome

@[simp] theorem find?_insert_self {α : Type} (d : Dictionary α) (name : String) (value : α) :
    (d.insert name value).find? name = some value :=
  valueAt?_insertEntry_self name value d.entries

theorem find?_insert_of_ne {α : Type} (d : Dictionary α) {name other : String} (value : α)
    (h : name ≠ other) : (d.insert name value).find? other = d.find? other :=
  valueAt?_insertEntry_of_ne value d.entries h

@[simp] theorem find?_empty {α : Type} (name : String) :
    (empty : Dictionary α).find? name = none := rfl

theorem ext {α : Type} {d e : Dictionary α} (h : d.entries = e.entries) : d = e := by
  cases d; cases e; cases h; rfl

end Dictionary

end DocQuery
