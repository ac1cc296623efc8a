import DocQuery.Toml.Basic

/-!
# TOML tables under construction

A document names the same table in several places. What may be added to a table depends on how it
came about: by its header, on the way to another table's header, or by a dotted key. A table cannot
be opened twice, and a dotted key adds only to tables made by dotted keys.
-/

namespace DocQuery

namespace Toml

/-- How a table came about. -/
inductive Origin where
  /-- By its own header, or as the document itself. -/
  | header
  /-- On the way to the header of a table inside it. -/
  | passed
  /-- By a dotted key. -/
  | dotted
deriving DecidableEq, Repr

/-- What stands under a key while the document is read. -/
inductive Entry where
  | value (v : Toml)
  | table (origin : Origin) (entries : List (String × Entry))
  /-- Tables under one repeated header. -/
  | tables (items : List (List (String × Entry)))
deriving Inhabited

/-- The entries of a table that is still open. -/
abbrev Entries := List (String × Entry)

/-- Puts an entry under a key, in the place of the entry that stood there. -/
def Entries.put (entries : Entries) (key : String) (entry : Entry) : Entries :=
  putField entries key entry

/-- Changes the table at the end of a path by `change`, which is given the table's origin. Tables
that are missing on the way are made; an array of tables leads to its last table; a dotted path does
not pass through tables that have a header. -/
def Entries.update (dotted : Bool) (change : Origin → Entries → Option Entries) :
    Origin → Entries → List String → Option Entries
  | origin, entries, [] => change origin entries
  | _, entries, key :: path =>
    match Json.lookup? entries key with
    | none => do
      let origin := if dotted then Origin.dotted else Origin.passed
      let inner ← update dotted change origin [] path
      some (entries.put key (.table origin inner))
    | some (.table origin inner) =>
      if dotted ∧ origin = .header then none
      else do
        let inner ← update dotted change origin inner path
        some (entries.put key (.table origin inner))
    | some (.tables items) =>
      match items.getLast? with
      | none => none
      | some last => do
        let last ← update dotted change .header last path
        some (entries.put key (.tables (items.dropLast ++ [last])))
    | some (.value _) => none

/-- Adds a value under a key, which must be free, at the end of a dotted path. -/
def Entries.add (origin : Origin) (entries : Entries) (path : List String) (key : String)
    (v : Toml) : Option Entries :=
  entries.update true
    (fun origin inner =>
      if origin = .dotted ↔ path.isEmpty then none
      else if (Json.lookup? inner key).isSome then none
      else some (inner.put key (.value v)))
    origin path

/-- Opens the table of a header. It must be new, or have come about only on the way to another. -/
def Entries.openTable (entries : Entries) (path : List String) (key : String) : Option Entries :=
  entries.update false
    (fun _ inner =>
      match Json.lookup? inner key with
      | none => some (inner.put key (.table .header []))
      | some (.table .passed found) => some (inner.put key (.table .header found))
      | some _ => none)
    .header path

/-- Opens one more table under a repeated header. -/
def Entries.openItem (entries : Entries) (path : List String) (key : String) : Option Entries :=
  entries.update false
    (fun _ inner =>
      match Json.lookup? inner key with
      | none => some (inner.put key (.tables [[]]))
      | some (.tables items) => some (inner.put key (.tables (items ++ [[]])))
      | some _ => none)
    .header path

mutual

/-- The value of an entry. -/
def Entry.close : Entry → Toml
  | .value v => v
  | .table _ entries => .table (closeEntries entries)
  | .tables items => .array (closeItems items)

/-- The values of entries. -/
def closeEntries : List (String × Entry) → List (String × Toml)
  | [] => []
  | (key, entry) :: entries => (key, entry.close) :: closeEntries entries

/-- The values of tables. -/
def closeItems : List (List (String × Entry)) → List Toml
  | [] => []
  | item :: items => .table (closeEntries item) :: closeItems items

end

end Toml

end DocQuery
