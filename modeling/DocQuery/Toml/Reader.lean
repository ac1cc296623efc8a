import DocQuery.Toml.Document
import DocQuery.Toml.Scalar

/-!
# Reading TOML

`Toml.parse` reads a document of version 1.0. Brackets may stand at most 79 deep inside each other,
and a key may have at most 79 parts. As in every reader here, the functions take the text that
remains and give back what they leave, with a count of steps that the text never exhausts.
-/

namespace DocQuery

namespace Toml

/-- Brackets inside each other, and parts of a key, stay below this. -/
def depthLimit : Nat := 80

/-- The text without its leading blanks. -/
def skipGap (cs : List Char) : List Char := cs.dropWhile isGap

/-- The text without a comment at its start; what remains must be the end of the line. -/
def skipComment : List Char → List Char
  | '#' :: rest => rest.dropWhile isTextChar
  | cs => cs

/-- What follows the end of the line, if only blanks and a comment stand before it. -/
def endLine (cs : List Char) : Option (List Char) :=
  match skipComment (skipGap cs) with
  | [] => some []
  | cs => takeNewline cs

/-- The text without leading blanks, comments and line breaks. -/
def skipLines : Nat → List Char → List Char
  | 0, cs => cs
  | fuel + 1, cs =>
    let rest := skipComment (skipGap cs)
    match takeNewline rest with
    | some rest => skipLines fuel rest
    | none => rest

/-- A character of a bare key. -/
def isKeyChar (c : Char) : Bool := c.isAlphanum || c == '_' || c == '-'

/-- One part of a key. -/
def takeKeyPart (cs : List Char) : Option (String × List Char) :=
  let bare := cs.takeWhile isKeyChar
  if bare.isEmpty then takeQuoted cs else some (String.ofList bare, cs.dropWhile isKeyChar)

/-- The parts of a dotted key, with blanks around them. -/
def takeKey : Nat → List Char → Option (List String × List Char)
  | 0, _ => none
  | fuel + 1, cs => do
    let (part, cs) ← takeKeyPart (skipGap cs)
    match skipGap cs with
    | '.' :: rest => do
      let (parts, rest) ← takeKey fuel rest
      some (part :: parts, rest)
    | rest => some ([part], rest)

/-- The parts of a key before the last, and the last. -/
def takePath (cs : List Char) : Option ((List String × String) × List Char) := do
  let (parts, rest) ← takeKey (cs.length + 1) cs
  if depthLimit ≤ parts.length then none
  let last ← parts.getLast?
  some ((parts.dropLast, last), rest)

mutual

/-- A value at the start of the text, within `depth` more brackets. -/
def takeValue : Nat → Nat → List Char → Option (Toml × List Char)
  | 0, _, _ => none
  | fuel + 1, depth, cs =>
    match cs with
    | '[' :: rest =>
      if depth = 0 then none
      else (takeItems fuel (depth - 1) [] rest).map fun (items, rest) => (array items, rest)
    | '\x7b' :: rest =>
      if depth = 0 then none
      else
        match skipGap rest with
        | '\x7d' :: rest => some (table [], rest)
        | rest =>
          (takePairs fuel (depth - 1) [] rest).map fun (entries, rest) =>
            (table (closeEntries entries), rest)
    | '"' :: _ => (takeString cs).map fun (s, rest) => (string s, rest)
    | '\'' :: _ => (takeString cs).map fun (s, rest) => (string s, rest)
    | _ =>
      let (word, rest) := takeWord cs
      (ofWord word).map fun v => (v, rest)

/-- The items of an array up to its closing bracket, behind those in `done`, newest first. -/
def takeItems : Nat → Nat → List Toml → List Char → Option (List Toml × List Char)
  | 0, _, _, _ => none
  | fuel + 1, depth, done, cs =>
    match skipLines (cs.length + 1) cs with
    | ']' :: rest => some (done.reverse, rest)
    | cs =>
      match takeValue fuel depth cs with
      | none => none
      | some (item, rest) =>
        match skipLines (rest.length + 1) rest with
        | ',' :: rest => takeItems fuel depth (item :: done) rest
        | ']' :: rest => some ((item :: done).reverse, rest)
        | _ => none

/-- The pairs of an inline table up to its closing brace, added to those in `done`. -/
def takePairs : Nat → Nat → Entries → List Char → Option (Entries × List Char)
  | 0, _, _, _ => none
  | fuel + 1, depth, done, cs =>
    match takePath cs with
    | some ((path, key), '=' :: rest) =>
      match takeValue fuel depth (skipGap rest) with
      | none => none
      | some (v, rest) =>
        match Entries.add .header done path key v with
        | none => none
        | some done =>
          match skipGap rest with
          | ',' :: rest => takePairs fuel depth done rest
          | '\x7d' :: rest => some (done, rest)
          | _ => none
    | _ => none

end

/-- A document while it is read: its tables, and the path of the table that lines add to. -/
structure Draft where
  entries : Entries := []
  current : List String := []

/-- Adds a value at a dotted path below the current table. -/
def Draft.add (d : Draft) (path : List String) (key : String) (v : Toml) : Option Draft := do
  let entries ← d.entries.update false
    (fun origin inner => Entries.add origin inner path key v) .header d.current
  some { d with entries }

/-- Reads a header, a pair, or nothing from a line. -/
def takeLine (d : Draft) (cs : List Char) : Option (Draft × List Char) :=
  match cs with
  | '[' :: '[' :: rest => do
    let ((path, key), rest) ← takePath rest
    match rest with
    | ']' :: ']' :: rest => do
      let entries ← d.entries.openItem path key
      some (⟨entries, path ++ [key]⟩, rest)
    | _ => none
  | '[' :: rest => do
    let ((path, key), rest) ← takePath rest
    match rest with
    | ']' :: rest => do
      let entries ← d.entries.openTable path key
      some (⟨entries, path ++ [key]⟩, rest)
    | _ => none
  | _ => do
    let ((path, key), rest) ← takePath cs
    match rest with
    | '=' :: rest => do
      let (v, rest) ← takeValue (2 * rest.length + 2) (depthLimit - 1) (skipGap rest)
      let d ← d.add path key v
      some (d, rest)
    | _ => none

/-- Reads the lines of a document one after the other. -/
def takeDocument : Nat → Draft → List Char → Option Draft
  | 0, _, _ => none
  | fuel + 1, d, cs =>
    match skipLines (cs.length + 1) cs with
    | [] => some d
    | cs =>
      match takeLine d cs with
      | none => none
      | some (d, rest) =>
        match endLine rest with
        | some rest => takeDocument fuel d rest
        | none => none

/-- The table that a document denotes. -/
def parse (text : String) : Option Toml :=
  let cs := match text.toList with
    | '\ufeff' :: rest => rest
    | cs => cs
  (takeDocument (cs.length + 1) {} cs).map fun d => table (closeEntries d.entries)

end Toml

end DocQuery
