import SnakeDraft.Cli.Run
import SnakeDraft.Store.DraftId
import Std.Time.DateTime

/-!
The program. It takes the entries of the file system that a run can touch into a disk in memory, runs
there, and then writes down what has changed.
-/

namespace SnakeDraft.Main

open Cli

/-- The path of a place. -/
def pathOf : Place → String
  | [] => "."
  | "/" :: names => "/" ++ "/".intercalate names
  | names => "/".intercalate names

/-- The disk with what the file system has at a place. -/
def take (d : Disk) (place : Place) : IO Disk := do
  try
    return d.put place (.file (← IO.FS.readBinFile (pathOf place)).toList)
  catch
    | .inappropriateType _ 21 _ => return d.put place .directory
    | _ => return d

/-- The disk with what the file system has at a place and on the way to it. -/
def takeWay (d : Disk) (place : Place) : IO Disk :=
  (List.range (place.length + 1)).foldlM (fun d n => take d (place.take n)) d

/-- The disk with what the file system has on the way of a path. -/
def takePath (d : Disk) (path : String) : IO Disk :=
  let names := Path.names path
  (List.range (names.length + 1)).foldlM
    (fun d n => takeWay d ((names.take n).foldl Place.enter (Place.startOf path))) d

/-- The disk with what setting up a base directory can touch: its log, and the files of some names among the defaults
and in the configuration. -/
def takeBase (base : String) (names : List String) : IO Disk := do
  let below : List Place :=
    ["logs", "draftbot.log"] :: names.flatMap fun name => [["config", name], ["defaults", name]]
  below.foldlM (fun d names => takeWay d (Place.ofPath base ++ names)) (← takePath Disk.empty base)

/-- The names of the defaults that a run goes on to read: that of the configuration, and those in which its paths
end. -/
def defaultNames (configured : Except Failure Config) : List String :=
  let paths :=
    match configured with
    | .error _ => []
    | .ok config => config.data.draftboard :: config.database.toList
  "draft.toml" :: paths.filterMap fun path => (Path.names path).getLast?

/-- The disk with the base directory as a run finds it. Directories are not listed here: what is copied beside the
configuration are the defaults that it names. -/
def findBase (base : String) : IO Disk := do
  let found ← takeBase base ["draft.toml"]
  takeBase base (defaultNames (configure base found).1)

/-- Writes down what one disk has in place of another. -/
def writeChanges (old new : Disk) : IO Unit := do
  (new.entries.map (·.1)).reverse.eraseDups.forM fun place =>
    if new.entryAt? place = old.entryAt? place then return
    else
      match new.entryAt? place with
      | some .directory => IO.FS.createDirAll (pathOf place)
      | some (.file content) => IO.FS.writeBinFile (pathOf place) ⟨content.toArray⟩
      | none => return
  (old.entries.map (·.1)).eraseDups.forM fun place =>
    if (new.entryAt? place).isSome then return else IO.FS.removeFile (pathOf place)

/-- The path of the user's own database. -/
def userDatabase : IO String := do
  let data ← match ← IO.getEnv "XDG_DATA_HOME", ← IO.getEnv "HOME" with
    | some data, _ => pure data
    | none, some home => pure (Path.join home ".local/share")
    | none, none => return "draftbot.db"
  return Path.join data "draftbot/draftbot.db"

/-- The circumstances of a run that has no time for a search. -/
def circumstances : IO Circumstances := do
  let now := (← Std.Time.Timestamp.now).toNanosecondsSinceUnixEpoch.val.toNat / 1000
  let seed := (← IO.getRandomBytes 8).toList.foldl (fun n b => 256 * n + b.toUInt64) 0
  return ⟨.wraps, ← userDatabase, Log.momentAt now, draftIdAt now, draftIdAt (now + 1), seed, (0 : Nat), ⟨0⟩⟩

/-- The number of iterations of a search. -/
def iterationsOf : Except SessionError SearchResult → Nat
  | .ok r => r.stats.iterations
  | .error _ => 0

/-- What the clock means for a search of a length of time, and the time that the search takes: the number of
iterations is doubled until they take a third of the time or the search is over for another reason. -/
def measure (s : Session) (budget : Duration) : Nat → Nat → IO (Timing × Duration)
  | 0, room => return (⟨⟨← IO.monoNanosNow⟩, room⟩, ⟨0⟩)
  | rounds + 1, room => do
    let begun ← IO.monoNanosNow
    let timing : Timing := ⟨⟨begun⟩, room⟩
    let made ← IO.mkRef (iterationsOf (s.think timing))
    let spent := (← IO.monoNanosNow) - begun
    if budget.nanoseconds < 3 * spent || (← made.get) < room then return (timing, ⟨spent⟩)
    else measure s budget rounds (2 * room)

/-- The circumstances with time for the searches of a command. -/
def withTime (c : Circumstances) (s : Session) (command : Command) : IO Circumstances := do
  match command, s.settings.timeBudget with
  | .sim, some budget | .think, some budget =>
    let (timing, elapsed) ← measure s budget 40 64
    return { c with clock := timing, elapsed }
  | _, _ => return c

/-- The disk with all that the session of a configuration is opened from. -/
def takeSession (i : Invocation) (c : Circumstances) (config : Config) : IO Disk := do
  let d ← takeBase i.base (defaultNames (.ok config))
  let d ← takePath d config.data.draftboard
  (Database.pathsOf (databaseName c config)).foldlM takePath d

/-- Carries out an invocation on the file system. -/
def invoke (i : Invocation) : IO Outcome := do
  let found ← findBase i.base
  let (configured, d) := configure i.base found
  writeChanges found d
  match configured with
  | .error f => return .ofFailure f
  | .ok config =>
    let c ← circumstances
    let found ← takeSession i c config
    let (opened, d) := openSession c i.base config found
    match opened with
    | .error e =>
      writeChanges found d
      return .ofFailure (.ofSession ["failed to open draft session"] e)
    | .ok s =>
      let timed := match withSeconds s i.seconds with
        | .ok s => s
        | .error _ => s
      let c ← withTime c timed i.command
      let (outcome, s) := finish c i s
      writeChanges found (saveSession s d)
      return outcome

def outcomeOf (arguments : List String) : IO Outcome := do
  match Request.ofArguments arguments with
  | .ok (.run i) => invoke i
  | _ => return (Cli.run (← circumstances) arguments .empty).1

end SnakeDraft.Main

def main (arguments : List String) : IO UInt32 := do
  let outcome ← SnakeDraft.Main.outcomeOf arguments
  IO.print outcome.out
  IO.eprint outcome.err
  return outcome.code.toUInt32
