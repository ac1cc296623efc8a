import DocQuery.Json.Reader
import DocQuery.Time.Calendar
import DocQuery.Toml.Basic

/-!
# TOML scalars

Numbers, truth values, dates and times are read from a word, the longest run of characters that such
a value may have; strings are read from their opening quote on.
-/

namespace DocQuery

namespace Toml

/-- Blanks inside a line. -/
def isGap (c : Char) : Bool := c == ' ' || c == '\t'

/-- A character that may stand in a comment or, but for quotes and backslashes, in a string of one
line. -/
def isTextChar (c : Char) : Bool := c == '\t' || (32 ≤ c.toNat && c.toNat ≠ 127)

/-- What follows a line break at the start of the text. -/
def takeNewline : List Char → Option (List Char)
  | '\n' :: rest => some rest
  | '\r' :: '\n' :: rest => some rest
  | _ => none

/-- Digits in groups, joined by single underscores; the digits without the underscores. -/
def digitGroups (isDigit : Char → Bool) : List Char → Option (List Char)
  | [] => none
  | [c] => if isDigit c then some [c] else none
  | c :: '_' :: rest => if isDigit c then (digitGroups isDigit rest).map (c :: ·) else none
  | c :: rest => if isDigit c then (digitGroups isDigit rest).map (c :: ·) else none

/-- Digits in groups, or nothing, at the start of a word, and the rest of the word. -/
def takeGroups (cs : List Char) : Option (List Char × List Char) :=
  let isPart := fun c => c.isDigit || c == '_'
  (digitGroups Char.isDigit (cs.takeWhile isPart)).map fun digits =>
    (digits, cs.dropWhile isPart)

/-- The sign of a number, if it has one: whether it is negative, and what follows it. -/
def takeSign : List Char → Bool × List Char
  | '+' :: rest => (false, rest)
  | '-' :: rest => (true, rest)
  | cs => (false, cs)

/-- A whole number, if it fits 64 bits. -/
def boundedInteger (i : Int) : Option Toml :=
  if -0x8000000000000000 ≤ i ∧ i < 0x8000000000000000 then some (integer i) else none

/-- The value of digits in a base. -/
def baseValue (base : Nat) (digits : List Char) : Nat :=
  digits.foldl (fun n c => n * base + (Json.hexValue? c).getD 0) 0

/-- A whole number in the base that the letter stands for. -/
def ofBase (letter : Char) (cs : List Char) : Option Toml :=
  let inBase := fun (base : Nat) (c : Char) => (Json.hexValue? c).any (· < base)
  let base := if letter = 'x' then 16 else if letter = 'o' then 8 else 2
  (digitGroups (inBase base) cs).bind fun digits => boundedInteger (baseValue base digits)

/-- The digits of an exponent with their sign. -/
def exponentOf (cs : List Char) : Option Int :=
  let (negative, cs) := takeSign cs
  (digitGroups Char.isDigit cs).map fun digits =>
    let magnitude : Int := Json.digitsValue digits
    if negative then -magnitude else magnitude

/-- A double of the given digits. Only a negative one may be too large for a finite double. -/
def floatOf (negative : Bool) (whole fraction : List Char) (exponent : Int) : Option Toml :=
  let places : Int := fraction.length
  let digits := Json.digitsValue (whole ++ fraction)
  match Binary64.ofDecimal negative digits (exponent - places) with
  | some x => some (float (some x))
  | none => if negative then some (float none) else none

/-- A decimal number. -/
def ofDecimal (word : List Char) : Option Toml := do
  let (negative, cs) := takeSign word
  let (whole, cs) ← takeGroups cs
  if 1 < whole.length ∧ whole.head? = some '0' then none
  let (fraction, cs) ← match cs with
    | '.' :: rest => takeGroups rest
    | _ => some ([], cs)
  match cs with
  | [] =>
    if fraction.isEmpty then
      let magnitude : Int := Json.digitsValue whole
      boundedInteger (if negative then -magnitude else magnitude)
    else floatOf negative whole fraction 0
  | c :: rest =>
    if c = 'e' ∨ c = 'E' then floatOf negative whole fraction (← exponentOf rest) else none

/-- The digits at the start of a word, exactly `count`, within a range. -/
def takeNumber (count low high : Nat) (cs : List Char) : Option (Nat × List Char) :=
  let digits := cs.take count
  let n := Json.digitsValue digits
  if digits.length = count ∧ digits.all Char.isDigit ∧ low ≤ n ∧ n ≤ high then
    some (n, cs.drop count)
  else none

/-- What follows the expected character. -/
def takeChar (expected : Char) : List Char → Option (List Char)
  | c :: rest => if c = expected then some rest else none
  | [] => none

/-- What follows an existing date. -/
def takeDate (cs : List Char) : Option (List Char) := do
  let (year, cs) ← takeNumber 4 0 9999 cs
  let cs ← takeChar '-' cs
  let (month, cs) ← takeNumber 2 1 12 cs
  let cs ← takeChar '-' cs
  let (_, cs) ← takeNumber 2 1 (Date.daysInMonth year month) cs
  some cs

/-- What follows a time of day. -/
def takeTime (cs : List Char) : Option (List Char) := do
  let (_, cs) ← takeNumber 2 0 23 cs
  let cs ← takeChar ':' cs
  let (_, cs) ← takeNumber 2 0 59 cs
  let cs ← takeChar ':' cs
  let (_, cs) ← takeNumber 2 0 60 cs
  match cs with
  | '.' :: rest =>
    if rest.head?.any Char.isDigit then some (rest.dropWhile Char.isDigit) else none
  | _ => some cs

/-- What follows an offset, or the text itself if it starts with none. -/
def takeOffset : List Char → Option (List Char)
  | 'Z' :: rest => some rest
  | 'z' :: rest => some rest
  | [] => some []
  | c :: rest =>
    if c = '+' ∨ c = '-' then do
      let (_, cs) ← takeNumber 2 0 23 rest
      let cs ← takeChar ':' cs
      let (_, cs) ← takeNumber 2 0 59 cs
      some cs
    else none

/-- The word is a date, a time, or a date and a time with or without an offset. -/
def isMoment (word : List Char) : Bool :=
  match takeDate word with
  | some [] => true
  | some (c :: rest) =>
    (c == 'T' || c == 't' || c == ' ') && ((takeTime rest).bind takeOffset) == some []
  | none => takeTime word == some []

/-- The value of a word. -/
def ofWord (word : List Char) : Option Toml :=
  match word with
  | ['t', 'r', 'u', 'e'] => some (boolean true)
  | ['f', 'a', 'l', 's', 'e'] => some (boolean false)
  | '0' :: letter :: rest =>
    if letter = 'x' ∨ letter = 'o' ∨ letter = 'b' then ofBase letter rest
    else if isMoment word then some (moment (String.ofList word))
    else ofDecimal word
  | _ =>
    let unsigned := (takeSign word).2
    if unsigned = ['i', 'n', 'f'] ∨ unsigned = ['n', 'a', 'n'] then some (float none)
    else if isMoment word then some (moment (String.ofList word))
    else ofDecimal word

/-- A character of a word. -/
def isWordPart (c : Char) : Bool :=
  c.isAlphanum || c == '_' || c == '+' || c == '-' || c == '.' || c == ':'

/-- The word at the start of the text and what follows it. A date may be followed by a blank and a
time. -/
def takeWord (cs : List Char) : List Char × List Char :=
  let word := cs.takeWhile isWordPart
  let rest := cs.dropWhile isWordPart
  match takeDate word, rest with
  | some [], ' ' :: a :: b :: ':' :: more =>
    if a.isDigit && b.isDigit then
      let time := a :: b :: ':' :: more.takeWhile isWordPart
      (word ++ [' '] ++ time, more.dropWhile isWordPart)
    else (word, rest)
  | _, _ => (word, rest)

/-- The character that an escape of `count` hexadecimal digits denotes. -/
def takeUnicode (count : Nat) (cs : List Char) : Option (Char × List Char) := do
  let digits := cs.take count
  if digits.length ≠ count then none
  let values ← digits.mapM Json.hexValue?
  let code := values.foldl (fun n d => n * 16 + d) 0
  if Nat.isValidChar code then some (Char.ofNat code, cs.drop count) else none

/-- The character of an escape whose backslash has been read. -/
def takeEscape : List Char → Option (Char × List Char)
  | 'b' :: rest => some ('\x08', rest)
  | 't' :: rest => some ('\t', rest)
  | 'n' :: rest => some ('\n', rest)
  | 'f' :: rest => some ('\x0c', rest)
  | 'r' :: rest => some ('\r', rest)
  | '"' :: rest => some ('"', rest)
  | '\\' :: rest => some ('\\', rest)
  | 'u' :: rest => takeUnicode 4 rest
  | 'U' :: rest => takeUnicode 8 rest
  | _ => none

/-- The rest of a one-line string in double quotes, behind the characters in `done`, newest
first. -/
def takeBasic : Nat → List Char → List Char → Option (String × List Char)
  | 0, _, _ => none
  | _, _, [] => none
  | fuel + 1, done, c :: rest =>
    if c = '"' then some (String.ofList done.reverse, rest)
    else if c = '\\' then
      match takeEscape rest with
      | some (c, rest) => takeBasic fuel (c :: done) rest
      | none => none
    else if isTextChar c then takeBasic fuel (c :: done) rest
    else none

/-- The rest of a one-line string in single quotes. -/
def takeLiteral (cs : List Char) : Option (String × List Char) :=
  let text := cs.takeWhile fun c => c ≠ '\''
  match cs.dropWhile fun c => c ≠ '\'' with
  | _ :: rest => if text.all isTextChar then some (String.ofList text, rest) else none
  | [] => none

/-- What follows a backslash at the end of a line: the text from the next character that is neither
a blank nor a line break. -/
def skipJoin : List Char → List Char
  | [] => []
  | c :: rest =>
    if isGap c then skipJoin rest
    else if c = '\n' then skipJoin rest
    else if c = '\r' ∧ rest.head? = some '\n' then skipJoin rest
    else c :: rest

/-- How many quotes, five at most, close a string of several lines: three, and up to two before them
that belong to it. -/
def closingQuotes (quote : Char) (cs : List Char) : Option (Nat × List Char) :=
  let count := ((cs.take 5).takeWhile (· = quote)).length
  if 3 ≤ count then some (count - 3, cs.drop count) else none

/-- The rest of a string of several lines. Only in double quotes is the backslash an escape. -/
def takeLines (quote : Char) : Nat → List Char → List Char → Option (String × List Char)
  | 0, _, _ => none
  | _, _, [] => none
  | fuel + 1, done, c :: rest =>
    match closingQuotes quote (c :: rest) with
    | some (kept, rest) =>
      some (String.ofList (done.reverse ++ List.replicate kept quote), rest)
    | none =>
      if c = '\\' ∧ quote = '"' then
        if (takeNewline (rest.dropWhile isGap)).isSome then
          takeLines quote fuel done (skipJoin rest)
        else
          match takeEscape rest with
          | some (c, rest) => takeLines quote fuel (c :: done) rest
          | none => none
      else
        match takeNewline (c :: rest) with
        | some rest => takeLines quote fuel ('\n' :: done) rest
        | none => if isTextChar c then takeLines quote fuel (c :: done) rest else none

/-- A string of several lines after its opening quotes. A line break right behind them does not
count. -/
def takeBlock (quote : Char) (cs : List Char) : Option (String × List Char) :=
  takeLines quote (cs.length + 1) [] ((takeNewline cs).getD cs)

/-- A string of one line that starts the text, as keys may be written. -/
def takeQuoted : List Char → Option (String × List Char)
  | '"' :: rest => takeBasic (rest.length + 1) [] rest
  | '\'' :: rest => takeLiteral rest
  | _ => none

/-- A string of either kind that starts the text. -/
def takeString : List Char → Option (String × List Char)
  | '"' :: '"' :: '"' :: rest => takeBlock '"' rest
  | '\'' :: '\'' :: '\'' :: rest => takeBlock '\'' rest
  | cs => takeQuoted cs

end Toml

end DocQuery
