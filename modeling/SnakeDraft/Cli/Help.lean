import SnakeDraft.Cli.Invocation
import SnakeDraft.Text.Columns

/-!
The texts that a user gets on asking for help, for the version, and after a mistake in a command line.
-/

namespace SnakeDraft.Cli

/-- The name of the program. -/
def programName : String := "draftbot"

def versionText : String := programName ++ " 0.1.0\n"

/-- A line of help: what is written on a command line, and what it means. -/
structure HelpLine where
  spelling : String
  meaning : String

/-- Lines of help, the meanings one below the other. -/
def renderHelpLines (lines : List HelpLine) : String :=
  let width := (lines.map (·.spelling.length)).foldl max 0
  String.join <| lines.map fun line =>
    "  " ++ Text.alignLeft width line.spelling ++ "  " ++ line.meaning ++ "\n"

/-- What a command does. -/
def commandMeaning : String → String
  | "sim" => "Let the engine make every remaining pick"
  | "think" => "Recommend a pick for the team on the clock"
  | "pick" => "Draft a player for the team on the clock"
  | "bench" => "Take a player for the team on the clock without filling a slot"
  | "undo" => "Remove the last pick"
  | "trade" => "Give a future pick (0-based index) to another team"
  | "state" => "Show the pick on the clock"
  | "history" => "List every pick so far"
  | "roster" => "Show one team's roster, or every team's"
  | "available" => "List the best untaken players at a position (FLEX allowed)"
  | "reset" => "Start a new draft"
  | _ => "Print this message or the help of the given subcommand(s)"

/-- The arguments of a command. -/
def commandPlaces : String → List HelpLine
  | "pick" | "bench" => [⟨"[NAME]...", ""⟩]
  | "trade" => [⟨"<PICK>", ""⟩, ⟨"<TEAM>", ""⟩]
  | "roster" => [⟨"[TEAM]", ""⟩]
  | "available" => [⟨"<POSITION>", ""⟩]
  | "help" => [⟨"[COMMAND]...", "Print help for the subcommand(s)"⟩]
  | _ => []

def helpLine : HelpLine := ⟨"-h, --help", "Print help"⟩

/-- The options of a command. -/
def commandOptions : String → List HelpLine
  | "available" => [⟨"-n, --limit <LIMIT>", s!"[default: {standardLimit}]"⟩, helpLine]
  | "help" => []
  | _ => [helpLine]

/-- The options of the program. -/
def programOptions : List HelpLine :=
  [⟨"    --base-dir <BASE_DIR>",
      "Directory holding config/ (and defaults/ for first-run setup) [default: .]"⟩,
    ⟨"-t, --seconds <SECONDS>", "Override the configured seconds of search per pick"⟩,
    ⟨"    --json", "Print results as JSON"⟩, helpLine, ⟨"-V, --version", "Print version"⟩]

/-- A titled part of a help text, if there is anything in it. -/
def helpPart (title : String) (lines : List HelpLine) : List String :=
  if lines.isEmpty then [] else [title ++ ":\n" ++ renderHelpLines lines]

def programUsage : String :=
  s!"Usage: {programName} [OPTIONS] <COMMAND>\n"

/-- The help on the program. -/
def programHelp : String :=
  "\n".intercalate <|
    ["Snake-draft pick recommendations by tree search\n", programUsage] ++
      helpPart "Commands" (commandNames.map fun name => ⟨name, commandMeaning name⟩) ++
      helpPart "Options" programOptions

/-- The help on a command. -/
def commandHelp (name : String) : String :=
  let options := if (commandOptions name).length ≤ 1 then [] else ["[OPTIONS]"]
  let usage := ["Usage:", programName, name] ++ options ++ (commandPlaces name).map (·.spelling)
  "\n".intercalate <|
    [commandMeaning name ++ "\n", " ".intercalate usage ++ "\n"] ++
      helpPart "Arguments" (commandPlaces name) ++ helpPart "Options" (commandOptions name)

def helpText : Option String → String
  | none => programHelp
  | some name => commandHelp name

/-- What is printed after a mistake in a command line. -/
def usageText (e : UsageError) : String :=
  s!"error: {e.message}\n\n{programUsage}\nFor more information, try '--help'.\n"

end SnakeDraft.Cli
