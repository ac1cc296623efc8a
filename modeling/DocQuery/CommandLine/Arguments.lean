/-!
# Arguments

The words of a command line. Options come in any order before and behind the other words. A value
follows its option as the next word, behind an equals sign, or right behind a single letter; letters
without values may be run together. After the word `--` nothing is an option.
-/

namespace DocQuery

namespace CommandLine

/-- An option that a command understands. -/
structure CommandOption where
  name : String
  letter : Option Char := none
  /-- The values that it admits; `none` for an option without a value. -/
  admits : Option (String → Bool) := none

/-- What a command understands. -/
structure Synopsis where
  options : List CommandOption
  /-- The most words that are not options. -/
  wordCount : Nat

/-- Why there is no command to carry out. -/
inductive Refusal where
  | help
  | version
  | usage
deriving DecidableEq, Repr

/-- The options and words that have been read. -/
structure Given where
  /-- The options by name; one without a value has the empty text. -/
  options : List (String × String) := []
  words : List String := []

namespace Given

/-- Adds an option. An option comes at most once, and nothing is read behind a call for help or for
the version. -/
def addOption (g : Given) (name value : String) : Except Refusal Given :=
  if name = "help" then .error .help
  else if name = "version" then .error .version
  else if (g.options.lookup name).isSome then .error .usage
  else .ok { g with options := g.options ++ [(name, value)] }

/-- Adds an option with its value. -/
def addValue (g : Given) (o : CommandOption) (value : String) : Except Refusal Given :=
  match o.admits with
  | some admits => if admits value then g.addOption o.name value else .error .usage
  | none => .error .usage

/-- Adds a word that is not an option. -/
def addWord (g : Given) (synopsis : Synopsis) (word : String) : Except Refusal Given :=
  if g.words.length < synopsis.wordCount then .ok { g with words := g.words ++ [word] }
  else .error .usage

/-- The value of an option. -/
def option? (g : Given) (name : String) : Option String := g.options.lookup name

/-- The option has been given. -/
def has (g : Given) (name : String) : Bool := (g.option? name).isSome

/-- The value of an option that must be given. -/
def required (g : Given) (name : String) : Except Refusal String :=
  match g.option? name with
  | some value => .ok value
  | none => .error .usage

end Given

/-- What reading a word leads to. -/
inductive Reading where
  | complete (given : Given)
  /-- The next word is the value of the option. -/
  | awaiting (option : CommandOption) (given : Given)

/-- A word that is read as options. -/
def isOption : List Char → Bool
  | '-' :: _ :: _ => true
  | _ => false

/-- Reads a long option without its two dashes. -/
def readLong (synopsis : Synopsis) (given : Given) (cs : List Char) : Except Refusal Reading :=
  let name := String.ofList (cs.takeWhile (· != '='))
  match synopsis.options.find? (·.name == name), cs.dropWhile (· != '=') with
  | none, _ => .error .usage
  | some o, _ :: value => .complete <$> given.addValue o (String.ofList value)
  | some o, [] =>
    if o.admits.isSome then .ok (.awaiting o given) else .complete <$> given.addOption o.name ""

/-- Reads letters without their dash. -/
def readLetters (synopsis : Synopsis) (given : Given) : List Char → Except Refusal Reading
  | [] => .ok (.complete given)
  | c :: rest =>
    match synopsis.options.find? (·.letter == some c) with
    | none => .error .usage
    | some o =>
      if o.admits.isSome then
        match rest with
        | [] => .ok (.awaiting o given)
        | '=' :: value => .complete <$> given.addValue o (String.ofList value)
        | value => .complete <$> given.addValue o (String.ofList value)
      else
        match given.addOption o.name "" with
        | .ok given => readLetters synopsis given rest
        | .error r => .error r

/-- Reads one word. -/
def readWord (synopsis : Synopsis) (given : Given) (word : String) : Except Refusal Reading :=
  match word.toList with
  | '-' :: '-' :: cs => readLong synopsis given cs
  | '-' :: c :: cs => readLetters synopsis given (c :: cs)
  | _ => .complete <$> given.addWord synopsis word

/-- Reads words up to the first that is a command's name, and gives that name with the words behind
it. -/
def readWords (synopsis : Synopsis) (isCommand : String → Bool) (given : Given) :
    List String → Except Refusal (Given × Option (String × List String))
  | [] => .ok (given, none)
  | word :: rest =>
    if isCommand word then .ok (given, some (word, rest))
    else if word = "--" then do
      let given ← rest.foldlM (fun g w => g.addWord synopsis w) given
      return (given, none)
    else
      match readWord synopsis given word with
      | .error r => .error r
      | .ok (.complete given) => readWords synopsis isCommand given rest
      | .ok (.awaiting o given) =>
        match rest with
        | [] => .error .usage
        | value :: rest =>
          if isOption value.toList then .error .usage
          else
            match given.addValue o value with
            | .ok given => readWords synopsis isCommand given rest
            | .error r => .error r

/-! ## Commands -/

/-- Where a query comes from. -/
structure QueryArguments where
  /-- The file of the schema. -/
  schema : String
  model : String
  /-- The query, or where to read it. -/
  query : String
deriving DecidableEq, Repr

/-- A command of the program. -/
inductive Command where
  | compile (source : QueryArguments) (asJson : Bool) (positional : Option String)
  | explain (source : QueryArguments)
  | operators
  | run (source : QueryArguments) (databaseUrl : Option String)
deriving DecidableEq, Repr

/-- A command and the configuration file to use. -/
structure Invocation where
  config : Option String
  command : Command
deriving DecidableEq, Repr

/-- A value that may be any text. -/
def anyText : String → Bool := fun _ => true

/-- A value that names a file. -/
def fileName : String → Bool := fun value => !value.isEmpty

/-- A value that names an output format. -/
def formatName : String → Bool := fun value => value == "table" || value == "json"

/-- The options of all commands. -/
def commonOptions : List CommandOption :=
  [⟨"config", some 'c', some fileName⟩, ⟨"verbose", some 'v', none⟩, ⟨"help", some 'h', none⟩]

/-- The options of commands that take a query. -/
def queryOptions : List CommandOption :=
  commonOptions ++ [⟨"schema", some 's', some fileName⟩, ⟨"model", some 'm', some anyText⟩]

/-- What may stand in front of a command. -/
def programSynopsis : Synopsis := ⟨commonOptions ++ [⟨"version", some 'V', none⟩], 0⟩

/-- The commands that do something, with what they understand. -/
def synopses : List (String × Synopsis) :=
  [("compile", ⟨queryOptions ++ [⟨"json", none, none⟩, ⟨"positional", none, some anyText⟩], 1⟩),
    ("explain", ⟨queryOptions, 1⟩),
    ("operators", ⟨commonOptions, 0⟩),
    ("run", ⟨queryOptions ++ [⟨"database-url", none, some anyText⟩,
      ⟨"format", some 'f', some formatName⟩], 1⟩)]

/-- The name of a command, the one that explains the others included. -/
def isCommandName (word : String) : Bool :=
  word == "help" || (synopses.lookup word).isSome

/-- A call for help on a topic is one for help if there is such a topic. -/
def helpOn (topics : List String) : Refusal :=
  match topics with
  | [] => .help
  | [topic] => if isCommandName topic then .help else .usage
  | _ => .usage

/-- The query of a command. -/
def queryArguments (given : Given) : Except Refusal QueryArguments := do
  let schema ← given.required "schema"
  let model ← given.required "model"
  match given.words with
  | [query] => return ⟨schema, model, query⟩
  | _ => .error .usage

/-- The command of a name and what has been given behind it. -/
def commandOf (name : String) (given : Given) : Except Refusal Command := do
  match name with
  | "compile" =>
    return .compile (← queryArguments given) (given.has "json") (given.option? "positional")
  | "explain" => return .explain (← queryArguments given)
  | "operators" => return .operators
  | "run" => return .run (← queryArguments given) (given.option? "database-url")
  | _ => .error .usage

/-- Reads a command line. A configuration file named behind the command counts before one named in
front of it. -/
def parse (words : List String) : Except Refusal Invocation := do
  let (outer, command) ← readWords programSynopsis isCommandName {} words
  match command with
  | none => .error .usage
  | some (name, rest) =>
    match synopses.lookup name with
    | none => .error (helpOn rest)
    | some synopsis => do
      let (inner, _) ← readWords synopsis (fun _ => false) {} rest
      let command ← commandOf name inner
      return ⟨(inner.option? "config").or (outer.option? "config"), command⟩

end CommandLine

end DocQuery
