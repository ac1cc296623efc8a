import DocQuery.Json.Decimal
import DocQuery.Json.Raw

/-!
# Reading JSON

The readers accept the strict grammar: no trailing commas, no leading zeros, no raw control
characters. `Json.readRaw` gives what the text says; `Json.read` refuses it if a part denotes no
value: a double out of range, an unpaired surrogate, or more than 127 brackets inside each other. It
keeps repeated keys as they stand; `Json.parse` resolves them.

The reading functions take the characters that remain and give back what they leave. They carry a
count of steps that the whole text never exhausts, since every step uses up a character.
-/

namespace DocQuery

namespace Json

/-- A blank, as it may stand around values, keys and punctuation. -/
def isSpace (c : Char) : Bool :=
  c == ' ' || c == '\t' || c == '\n' || c == '\r'

/-- How deep brackets may stand inside each other. -/
def maxDepth : Nat := 127

/-- The value of a hexadecimal digit of either case. -/
def hexValue? (c : Char) : Option Nat :=
  if '0' ≤ c ∧ c ≤ '9' then some (c.toNat - '0'.toNat)
  else if 'a' ≤ c ∧ c ≤ 'f' then some (c.toNat - 'a'.toNat + 10)
  else if 'A' ≤ c ∧ c ≤ 'F' then some (c.toNat - 'A'.toNat + 10)
  else none

/-- The number that four hexadecimal digits denote. -/
def hexQuad? (a b c d : Char) : Option Nat := do
  let a ← hexValue? a
  let b ← hexValue? b
  let c ← hexValue? c
  let d ← hexValue? d
  some (((a * 16 + b) * 16 + c) * 16 + d)

/-- The character that a backslash and one more character stand for. -/
def escapedChar? : Char → Option Char
  | '"' => some '"'
  | '\\' => some '\\'
  | '/' => some '/'
  | 'b' => some '\x08'
  | 'f' => some '\x0c'
  | 'n' => some '\n'
  | 'r' => some '\r'
  | 't' => some '\t'
  | _ => none

/-- What one place of a string holds. -/
inductive StringUnit where
  | char (c : Char)
  /-- A number written behind `\u`: a character, or half of a surrogate pair. -/
  | code (n : Nat)
deriving DecidableEq, Repr

/-- The units of a string whose opening quote has been read, behind those in `done`, newest
first. -/
def readUnits (done : List StringUnit) : List Char → Option (List StringUnit × List Char)
  | [] => none
  | '"' :: rest => some (done.reverse, rest)
  | '\\' :: 'u' :: a :: b :: c :: d :: rest =>
    match hexQuad? a b c d with
    | some n => readUnits (.code n :: done) rest
    | none => none
  | '\\' :: c :: rest =>
    match escapedChar? c with
    | some c => readUnits (.char c :: done) rest
    | none => none
  | c :: rest =>
    if c.toNat < 32 ∨ c = '\\' then none else readUnits (.char c :: done) rest

def isHighSurrogate (n : Nat) : Bool := 0xd800 ≤ n && n ≤ 0xdbff

def isLowSurrogate (n : Nat) : Bool := 0xdc00 ≤ n && n ≤ 0xdfff

/-- The character of a surrogate pair. -/
def pairChar (high low : Nat) : Char :=
  Char.ofNat (0x10000 + (high - 0xd800) * 0x400 + (low - 0xdc00))

/-- The characters of units, behind those in `done`, newest first; `none` if a surrogate has no
partner. -/
def joinUnits (done : List Char) : List StringUnit → Option (List Char)
  | [] => some done.reverse
  | .char c :: rest => joinUnits (c :: done) rest
  | .code n :: .code m :: rest =>
    if isHighSurrogate n && isLowSurrogate m then joinUnits (pairChar n m :: done) rest
    else if isHighSurrogate n || isLowSurrogate n then none
    else joinUnits (Char.ofNat n :: done) (.code m :: rest)
  | .code n :: rest =>
    if isHighSurrogate n || isLowSurrogate n then none
    else joinUnits (Char.ofNat n :: done) rest

/-- A string whose opening quote has been read; `none` in place of a string with an unpaired
surrogate. -/
def readQuoted (cs : List Char) : Option (Option String × List Char) :=
  (readUnits [] cs).map fun (units, rest) => ((joinUnits [] units).map String.ofList, rest)

/-- One or more digits. -/
def readDigits (cs : List Char) : Option (List Char × List Char) :=
  let digits := cs.takeWhile Char.isDigit
  if digits.isEmpty then none else some (digits, cs.dropWhile Char.isDigit)

/-- The whole part of a number: a zero alone, or digits that do not start with one. -/
def readWhole : List Char → Option (List Char × List Char)
  | '0' :: rest => if rest.head?.any Char.isDigit then none else some (['0'], rest)
  | cs => readDigits cs

/-- The digits behind the point, when there is one. -/
def readFraction : List Char → Option (List Char × List Char)
  | '.' :: rest => readDigits rest
  | cs => some ([], cs)

/-- The exponent, when there is one. -/
def readExponent : List Char → Option (Option Int × List Char)
  | [] => some (none, [])
  | c :: cs =>
    if c == 'e' || c == 'E' then do
      let (negative, cs) := match cs with
        | '+' :: rest => (false, rest)
        | '-' :: rest => (true, rest)
        | _ => (false, cs)
      let (digits, rest) ← readDigits cs
      let magnitude : Int := digitsValue digits
      some (some (if negative then -magnitude else magnitude), rest)
    else some (none, c :: cs)

/-- A number after its sign; `none` for a double out of range. -/
def readNumber (negative : Bool) (cs : List Char) : Option (Option JsonNumber × List Char) := do
  let (whole, cs) ← readWhole cs
  let (fraction, cs) ← readFraction cs
  let (exponent, cs) ← readExponent cs
  some (decimalNumber negative whole fraction exponent, cs)

/-- What follows the expected word. -/
def readWord (word : String) (cs : List Char) : Option (List Char) :=
  let expected := word.toList
  if expected.isPrefixOf cs then some (cs.drop expected.length) else none

/-- The text without its leading blanks. -/
def skipSpace (cs : List Char) : List Char := cs.dropWhile isSpace

/-- What stands for a part of the text, or `unreadable` if it denotes no value. -/
def rawOf {α : Type} (make : α → RawJson) : Option α → RawJson
  | some a => make a
  | none => .unreadable

/-- An object of fields whose keys may be unreadable, which makes it so too. -/
def rawObject (fields : List (Option String × RawJson)) : RawJson :=
  rawOf RawJson.object (fields.mapM fun field => field.1.map fun key => (key, field.2))

/-- A value without brackets at the start of the text. -/
def readScalar : List Char → Option (RawJson × List Char)
  | 'n' :: rest => (readWord "ull" rest).map fun rest => (.null, rest)
  | 't' :: rest => (readWord "rue" rest).map fun rest => (.bool true, rest)
  | 'f' :: rest => (readWord "alse" rest).map fun rest => (.bool false, rest)
  | '"' :: rest => (readQuoted rest).map fun (s, rest) => (rawOf .string s, rest)
  | '-' :: rest => (readNumber true rest).map fun (n, rest) => (rawOf .number n, rest)
  | rest => (readNumber false rest).map fun (n, rest) => (rawOf .number n, rest)

/-- A key and the colon behind it. -/
def readKey (cs : List Char) : Option (Option String × List Char) :=
  match skipSpace cs with
  | '"' :: rest =>
    match readQuoted rest with
    | some (key, rest) =>
      match skipSpace rest with
      | ':' :: rest => some (key, rest)
      | _ => none
    | none => none
  | _ => none

/-! ## Skipping -/

/-- Kinds of brackets. -/
inductive Bracket where
  | array
  | object
deriving DecidableEq, Repr

/-- What a skipped text goes on with. -/
inductive Awaited where
  | value
  | key
  /-- What may follow a value. -/
  | separator
deriving DecidableEq, Repr

/-- What follows the values in the open brackets, innermost first, whatever their depth. -/
def skip : Nat → Awaited → List Bracket → List Char → Option (List Char)
  | 0, _, _, _ => none
  | _, .separator, [], cs => some cs
  | fuel + 1, .separator, bracket :: outer, cs =>
    match bracket, skipSpace cs with
    | .array, ',' :: rest => skip fuel .value (.array :: outer) rest
    | .object, ',' :: rest => skip fuel .key (.object :: outer) rest
    | .array, ']' :: rest => skip fuel .separator outer rest
    | .object, '\x7d' :: rest => skip fuel .separator outer rest
    | _, _ => none
  | fuel + 1, .key, brackets, cs =>
    match readKey cs with
    | some (_, rest) => skip fuel .value brackets rest
    | none => none
  | fuel + 1, .value, brackets, cs =>
    match skipSpace cs with
    | '[' :: rest =>
      match skipSpace rest with
      | ']' :: rest => skip fuel .separator brackets rest
      | rest => skip fuel .value (.array :: brackets) rest
    | '\x7b' :: rest =>
      match skipSpace rest with
      | '\x7d' :: rest => skip fuel .separator brackets rest
      | rest => skip fuel .key (.object :: brackets) rest
    | rest =>
      match readScalar rest with
      | some (_, rest) => skip fuel .separator brackets rest
      | none => none

/-- Passes over a value without reading it. -/
def skipValue (cs : List Char) : Option (RawJson × List Char) :=
  (skip (2 * cs.length + 2) .value [] cs).map fun rest => (.unreadable, rest)

/-! ## Reading -/

mutual

/-- A value at the start of the text. Brackets are read up to `depth` deep and only skipped
beyond. -/
def readValue : Nat → Nat → List Char → Option (RawJson × List Char)
  | 0, _, _ => none
  | fuel + 1, depth, cs =>
    match skipSpace cs with
    | '[' :: rest =>
      match depth with
      | 0 => skipValue ('[' :: rest)
      | depth + 1 =>
        match skipSpace rest with
        | ']' :: rest => some (.array [], rest)
        | rest => (readItems fuel depth [] rest).map fun (items, rest) => (.array items, rest)
    | '\x7b' :: rest =>
      match depth with
      | 0 => skipValue ('\x7b' :: rest)
      | depth + 1 =>
        match skipSpace rest with
        | '\x7d' :: rest => some (.object [], rest)
        | rest => (readFields fuel depth [] rest).map fun (fields, rest) => (rawObject fields, rest)
    | rest => readScalar rest

/-- The items up to the closing bracket, behind those in `done`, newest first. -/
def readItems : Nat → Nat → List RawJson → List Char → Option (List RawJson × List Char)
  | 0, _, _, _ => none
  | fuel + 1, depth, done, cs =>
    match readValue fuel depth cs with
    | none => none
    | some (item, rest) =>
      match skipSpace rest with
      | ',' :: rest => readItems fuel depth (item :: done) rest
      | ']' :: rest => some ((item :: done).reverse, rest)
      | _ => none

/-- The fields up to the closing brace, behind those in `done`, newest first. -/
def readFields : Nat → Nat → List (Option String × RawJson) → List Char →
    Option (List (Option String × RawJson) × List Char)
  | 0, _, _, _ => none
  | fuel + 1, depth, done, cs =>
    match readKey cs with
    | none => none
    | some (key, rest) =>
      match readValue fuel depth rest with
      | none => none
      | some (value, rest) =>
        match skipSpace rest with
        | ',' :: rest => readFields fuel depth ((key, value) :: done) rest
        | '\x7d' :: rest => some (((key, value) :: done).reverse, rest)
        | _ => none

end

/-- What the whole text says, with repeated keys as they stand. -/
def readRaw (text : String) : Option RawJson :=
  let cs := text.toList
  match readValue (2 * cs.length + 2) maxDepth cs with
  | some (raw, rest) => if (skipSpace rest).isEmpty then some raw else none
  | none => none

/-- The value that the whole text denotes, with repeated keys as they stand. -/
def read (text : String) : Option Json :=
  (readRaw text).bind RawJson.toJson?

/-- The value that the whole text denotes, repeated keys resolved. -/
def parse (text : String) : Option Json :=
  (read text).map merged

end Json

end DocQuery
