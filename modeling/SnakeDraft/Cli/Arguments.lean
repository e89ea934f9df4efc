/-!
Command-line arguments. A vocabulary lists the spellings of all options; `Vocabulary.scan` tells the
options of an argument list from its words. An option's value is written in the same argument or in
the next one, which then must not look like an option. After `--` all arguments are words.
-/

namespace SnakeDraft.Cli

/-- What is wrong with a command line. -/
inductive UsageError where
  | unexpected (argument : String)
  | missingValue (option : String)
  | invalidValue (value name : String)
  | repeated (option : String)
  | missingArgument (name : String)
  | missingCommand
  | unknownCommand (word : String)
deriving DecidableEq, Repr

def UsageError.message : UsageError → String
  | unexpected argument => s!"unexpected argument '{argument}' found"
  | missingValue option => s!"a value is required for '{option}' but none was supplied"
  | invalidValue value name => s!"invalid value '{value}' for '{name}'"
  | repeated option => s!"the argument '{option}' cannot be used multiple times"
  | missingArgument name => s!"the following required arguments were not provided: {name}"
  | missingCommand => "a subcommand is required but one was not provided"
  | unknownCommand word => s!"unrecognized subcommand '{word}'"

/-- A part of a command line. Options go by their long spelling. -/
inductive Item where
  | flag (option : String)
  | value (option text : String)
  | word (text : String)
deriving DecidableEq, Repr

/-- The options of a command by their spellings, each with its long spelling. -/
structure Vocabulary where
  flags : List (String × String)
  /-- The options that take a value. -/
  valued : List (String × String)

/-- What one argument is by itself. -/
inductive Reading where
  | done (item : Item)
  /-- An option whose value is the next argument. -/
  | awaits (option : String)
  | ending
  | unknown
deriving DecidableEq, Repr

/-- Whether an argument can be the value of the option before it. -/
def isPlain (argument : String) : Bool :=
  !argument.startsWith "-" || argument == "-"

namespace Vocabulary

/-- Reads `--name`, or `--name=value` if the value is there. -/
def readLong (v : Vocabulary) (name : String) (value : Option String) : Reading :=
  match v.flags.lookup name, v.valued.lookup name, value with
  | some option, _, none => .done (.flag option)
  | _, some option, some text => .done (.value option text)
  | _, some option, none => .awaits option
  | _, _, _ => .unknown

/-- Reads a dash, a letter and what is attached to it. -/
def readShort (v : Vocabulary) (letter : Char) (attached : List Char) : Reading :=
  let name := String.ofList ['-', letter]
  match v.flags.lookup name, v.valued.lookup name, attached with
  | some option, _, _ => .done (.flag option)
  | _, some option, [] => .awaits option
  | _, some option, '=' :: text => .done (.value option (String.ofList text))
  | _, some option, text => .done (.value option (String.ofList text))
  | _, _, _ => .unknown

def read (v : Vocabulary) (argument : String) : Reading :=
  match argument.toList with
  | ['-', '-'] => .ending
  | '-' :: '-' :: cs =>
    let name := String.ofList ('-' :: '-' :: cs.takeWhile (· ≠ '='))
    match cs.dropWhile (· ≠ '=') with
    | _ :: value => v.readLong name (some (String.ofList value))
    | [] => v.readLong name none
  | '-' :: letter :: attached => v.readShort letter attached
  | _ => .done (.word argument)

/-- The items of an argument list and the error that ends it, if one does. -/
def scan (v : Vocabulary) : List String → List Item × Option UsageError
  | [] => ([], none)
  | argument :: rest =>
    match v.read argument with
    | .done item => let (items, e) := v.scan rest; (item :: items, e)
    | .ending => (rest.map .word, none)
    | .unknown => ([], some (.unexpected argument))
    | .awaits option =>
      match rest with
      | [] => ([], some (.missingValue option))
      | text :: rest =>
        if isPlain text then let (items, e) := v.scan rest; (.value option text :: items, e)
        else ([], some (.missingValue option))

/-- The number of arguments before the first word that is no option's value. After `--` there is no such
word. -/
def leading (v : Vocabulary) : List String → Nat
  | [] => 0
  | argument :: rest =>
    match v.read argument with
    | .done (.word _) => 0
    | .ending => rest.length + 1
    | .awaits _ =>
      match rest with
      | [] => 1
      | _ :: rest => v.leading rest + 2
    | _ => v.leading rest + 1

/-- The number of arguments that are left without an option at the end whose value is the last argument. An
option whose last argument cannot be its value is not left out. -/
def settled (v : Vocabulary) : List String → Nat
  | [] => 0
  | argument :: rest =>
    match v.read argument, rest with
    | .awaits _, [] => 0
    | .awaits _, [text] => if isPlain text then 0 else 2
    | .awaits _, _ :: next :: rest => v.settled (next :: rest) + 2
    | _, rest => v.settled rest + 1

end Vocabulary

end SnakeDraft.Cli
