import SnakeDraft.Disk.Walk
import SnakeDraft.Store.DraftId

/-!
The log of the program, which stands below the base directory. A run notes there what it works on, one
event on a line, after all that earlier runs have noted.
-/

namespace SnakeDraft.Cli

/-- What a run notes. -/
inductive LogEvent where
  | boardLoaded (players : Nat) (path : String)
  | databaseOpened (name : String)
deriving DecidableEq, Repr

def LogEvent.message : LogEvent → String
  | boardLoaded players path => s!"loaded {players} players from {path}"
  | databaseOpened name => s!"Database opened at {name}"

namespace Log

/-- The path of the directory of the log. -/
def directory (base : String) : String :=
  Path.join base "logs"

/-- The place of the log. -/
def place (base : String) (d : Disk) : Except DiskError Place :=
  (d.find (directory base)).map (· ++ ["draftbot.log"])

/-- Opens the log. -/
def start (base : String) (d : Disk) : Except DiskError Unit × Disk :=
  match d.makeDirectories (directory base) with
  | (.error e, d) => (.error e, d)
  | (.ok (), d) =>
    match place base d with
    | .error e => (.error e, d)
    | .ok place => d.openAtEnd place

/-- A moment as the log tells it, a number of microseconds after 1970 began. -/
def momentAt (microseconds : Nat) : String :=
  let seconds := microseconds / 1000000
  let d := Day.ofNumber (seconds / 86400)
  let date := [zeroFilled 4 d.year, zeroFilled 2 d.month, zeroFilled 2 d.day]
  let time := [seconds / 3600 % 24, seconds / 60 % 60, seconds % 60].map (zeroFilled 2)
  "-".intercalate date ++ "T" ++ ":".intercalate time ++ "." ++
    zeroFilled 6 (microseconds % 1000000) ++ "Z"

/-- The line of an event at a moment. -/
def line (moment : String) (event : LogEvent) : String :=
  s!"{moment}  INFO {event.message}\n"

/-- The disk with one more event in the log. -/
def note (base moment : String) (event : LogEvent) (d : Disk) : Disk :=
  match place base d with
  | .error _ => d
  | .ok place =>
    match d.entryAt? place with
    | some (.file content) =>
      d.put place (.file (content ++ (line moment event).toUTF8.toList))
    | _ => d

end Log

end SnakeDraft.Cli
