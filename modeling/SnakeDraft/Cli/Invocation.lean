import SnakeDraft.Cli.Arguments
import SnakeDraft.Decimal.Reader

/-!
What a command line asks for. The options of the program come before the command and those of a
command after it; the first thing at fault on the line is reported, and a request for help or for the
version is answered at once. Only the value in the argument right before the command is looked at after
the command.
-/

namespace SnakeDraft.Cli

/-- One command with its arguments. -/
inductive Command where
  /-- Make every remaining pick by searches. -/
  | sim
  /-- Recommend a pick. -/
  | think
  | pick (name : String)
  | bench (name : String)
  | undo
  | trade (pick team : Nat)
  | state
  | history
  | roster (team : Option Nat)
  | available (position : String) (limit : Nat)
  | reset

/-- A command with the options of the program. -/
structure Invocation where
  /-- The path of the directory that holds the configuration. -/
  base : String
  /-- The seconds of search per pick, in place of the configured ones. -/
  seconds : Option Float
  /-- Whether results are printed as JSON. -/
  json : Bool
  command : Command

/-- What a command line asks for. -/
inductive Request where
  | run (invocation : Invocation)
  /-- Help on a command, or on the program. -/
  | help (topic : Option String)
  | version

/-- The names of all commands. -/
def commandNames : List String :=
  ["sim", "think", "pick", "bench", "undo", "trade", "state", "history", "roster", "available",
    "reset", "help"]

/-- The number of players that are listed without a limit. -/
def standardLimit : Nat := 10

def helpFlags : List (String × String) :=
  [("--help", "--help"), ("-h", "--help")]

/-- The options before the command. -/
def programVocabulary : Vocabulary where
  flags := [("--json", "--json"), ("--version", "--version"), ("-V", "--version")] ++ helpFlags
  valued := [("--base-dir", "--base-dir"), ("--seconds", "--seconds"), ("-t", "--seconds")]

/-- The options after a command. -/
def commandVocabulary (name : String) : Vocabulary where
  flags := helpFlags
  valued := if name = "available" then [("--limit", "--limit"), ("-n", "--limit")] else []

/-- A whole number of 64 bits, in decimal digits after an optional plus. -/
def readNat? (text : String) : Option Nat :=
  let digits := match text.toList with
    | '+' :: cs => cs
    | cs => cs
  if digits.isEmpty || !digits.all Char.isDigit then none
  else
    let n := digits.foldl (fun n c => 10 * n + (c.toNat - '0'.toNat)) 0
    if n < UInt64.size then some n else none

/-- What has been read of the options before the command. -/
structure ProgramOptions where
  base : Option String := none
  seconds : Option Float := none
  json : Bool := false

/-- The options before the command, or the answer to the line if they hold it already. -/
def readProgramOptions (o : ProgramOptions) :
    List Item → Except UsageError (ProgramOptions ⊕ Request)
  | [] => .ok (.inl o)
  | .flag "--help" :: _ => .ok (.inr (.help none))
  | .flag "--version" :: _ => .ok (.inr .version)
  | .flag option :: items =>
    if o.json then .error (.repeated option) else readProgramOptions { o with json := true } items
  | .value "--base-dir" text :: items =>
    if o.base.isSome then .error (.repeated "--base-dir")
    else if text = "" then .error (.missingValue "--base-dir")
    else readProgramOptions { o with base := some text } items
  | .value option text :: items =>
    if o.seconds.isSome then .error (.repeated option)
    else
      match Decimal.read? text with
      | some seconds => readProgramOptions { o with seconds := some seconds } items
      | none => .error (.invalidValue text option)
  | .word word :: _ => .error (.unexpected word)

/-- What has been read after a command: its words, and the limit if it has one. -/
structure CommandArguments where
  words : List String := []
  limit : Option Nat := none

/-- Whether a command takes this word after those it has. -/
def acceptWord (name : String) (count : Nat) (word : String) : Except UsageError Unit :=
  let number (place : String) : Except UsageError Unit :=
    if (readNat? word).isSome then .ok () else .error (.invalidValue word place)
  match name, count with
  | "pick", _ | "bench", _ | "available", 0 => .ok ()
  | "roster", 0 => number "[TEAM]"
  | "trade", 0 => number "<PICK>"
  | "trade", 1 => number "<TEAM>"
  | _, _ => .error (.unexpected word)

/-- The arguments of a command, or nothing when they ask for help on it. -/
def readCommandArguments (name : String) (a : CommandArguments) :
    List Item → Except UsageError (Option CommandArguments)
  | [] => .ok (some a)
  | .flag _ :: _ => .ok none
  | .value option text :: items =>
    if a.limit.isSome then .error (.repeated option)
    else
      match readNat? text with
      | some limit => readCommandArguments name { a with limit := some limit } items
      | none => .error (.invalidValue text option)
  | .word word :: items =>
    match acceptWord name a.words.length word with
    | .error e => .error e
    | .ok () => readCommandArguments name { a with words := a.words ++ [word] } items

/-- The command of a name with its arguments. -/
def commandOf (name : String) (a : CommandArguments) : Except UsageError Command :=
  match name, a.words with
  | "sim", _ => .ok .sim
  | "think", _ => .ok .think
  | "pick", words => .ok (.pick (" ".intercalate words))
  | "bench", words => .ok (.bench (" ".intercalate words))
  | "undo", _ => .ok .undo
  | "trade", [pick, team] => .ok (.trade ((readNat? pick).getD 0) ((readNat? team).getD 0))
  | "trade", [] => .error (.missingArgument "<PICK> <TEAM>")
  | "trade", _ => .error (.missingArgument "<TEAM>")
  | "state", _ => .ok .state
  | "history", _ => .ok .history
  | "roster", words => .ok (.roster (words.head?.bind readNat?))
  | "available", [position] => .ok (.available position (a.limit.getD standardLimit))
  | "available", _ => .error (.missingArgument "<POSITION>")
  | "reset", _ => .ok .reset
  | _, _ => .error (.unknownCommand name)

/-- What the words after the command `help` ask for. -/
def readTopic : List String → Except UsageError Request
  | [] => .ok (.help none)
  | [topic] =>
    if commandNames.contains topic then .ok (.help (some topic)) else .error (.unknownCommand topic)
  | topic :: extra :: _ =>
    if commandNames.contains topic then .error (.unknownCommand extra)
    else .error (.unknownCommand topic)

/-- The options of the program with more of them, or the answer to the line if they hold it already. -/
def extendOptions (o : ProgramOptions) (arguments : List String) :
    Except UsageError (ProgramOptions ⊕ Request) :=
  let (items, fault) := programVocabulary.scan arguments
  match readProgramOptions o items, fault with
  | .ok (.inl _), some e => .error e
  | result, _ => result

/-- The command of a command line, or the answer to a line that asks for help in place of one. -/
def readCommand : List String → Except UsageError (Command ⊕ Request)
  | [] => .error .missingCommand
  | "help" :: arguments => (readTopic arguments).map .inr
  | name :: arguments =>
    if !commandNames.contains name then .error (.unknownCommand name)
    else
      let (items, fault) := (commandVocabulary name).scan arguments
      match readCommandArguments name {} items, fault with
      | .error e, _ => .error e
      | .ok none, _ => .ok (.inr (.help (some name)))
      | .ok (some _), some e => .error e
      | .ok (some a), none => (commandOf name a).map .inl

/-- The request for a command with the options before it. -/
def request (o : ProgramOptions) (command : Command) : Request :=
  .run ⟨o.base.getD ".", o.seconds, o.json, command⟩

/-- What a command line asks for. -/
def Request.ofArguments (arguments : List String) : Except UsageError Request :=
  let count := programVocabulary.leading arguments
  let before := arguments.take count
  let early := if count < arguments.length then programVocabulary.settled before else count
  match extendOptions {} (before.take early) with
  | .error e => .error e
  | .ok (.inr answer) => .ok answer
  | .ok (.inl o) =>
    match readCommand (arguments.drop count) with
    | .error e => .error e
    | .ok (.inr answer) => .ok answer
    | .ok (.inl command) =>
      (extendOptions o (before.drop early)).map fun
        | .inl o => request o command
        | .inr answer => answer

end SnakeDraft.Cli
