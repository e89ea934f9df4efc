import SnakeDraft.Config.Load
import SnakeDraft.Disk.Basic
import SnakeDraft.Text.Utf8

/-!
The directory `config` of a league, and its first copies. `Setup.run` copies each file of the directory
`defaults` beside it that has no counterpart yet, and never overwrites one; `Config.load` reads the
configuration that then stands there.
-/

namespace SnakeDraft

/-- Why the configuration of a league cannot be set up. -/
inductive SetupError where
  /-- There are neither defaults nor a configuration. -/
  | nothingThere
  | noDirectory (cause : DiskError)
  | noList (cause : DiskError)
  | cannotCreate (name : String) (cause : DiskError)
  | cannotRead (name : String) (cause : DiskError)
  | cannotWrite (name : String) (cause : DiskError)
deriving DecidableEq, Repr

namespace SetupError

/-- What went wrong, with the paths as they are seen from the path of the base directory. -/
def detail (base : String) (e : SetupError) : String :=
  let target := Path.join base "config"
  let defaults := Path.join base "defaults"
  let failed (deed path : String) (cause : DiskError) : String :=
    s!"cannot {deed} {path}: {cause.message}"
  match e with
  | nothingThere => s!"{base} has no defaults/ or config/ directory"
  | noDirectory cause => failed "create" target cause
  | noList cause => failed "list" defaults cause
  | cannotCreate name cause => failed "create" (Path.join target name) cause
  | cannotRead name cause => failed "read" (Path.join defaults name) cause
  | cannotWrite name cause => failed "write" (Path.join target name) cause

def message (base : String) (e : SetupError) : String :=
  s!"cannot set up config/ from defaults/: {e.detail base}"

end SetupError

namespace Setup

/-- The place of a file of the configuration. -/
def configPlace (base : Place) (name : String) : Place :=
  base ++ ["config", name]

/-- The place of a default. -/
def defaultPlace (base : Place) (name : String) : Place :=
  base ++ ["defaults", name]

/-- Whether a file is a template, which the user copies by hand. -/
def isTemplate (name : String) : Bool :=
  ".example".toList.isSuffixOf name.toList && name != ".example"

/-- The names of the files to copy, in order. -/
def sources (d : Disk) (base : Place) (names : List String) : List String :=
  (names.filter fun name => d.isFile (defaultPlace base name) && !isTemplate name).mergeSort

/-- Copies a default unless something of its name stands in the configuration: whether it did. -/
def copyDefault (base : Place) (name : String) (d : Disk) : Except SetupError Bool × Disk :=
  match d.create (configPlace base name) with
  | (.error .alreadyExists, d) => (.ok false, d)
  | (.error e, d) => (.error (.cannotCreate name e), d)
  | (.ok (), d) =>
    match d.read (defaultPlace base name) with
    | (.error e, d) => (.error (.cannotRead name e), d)
    | (.ok content, d) =>
      match d.write (configPlace base name) content with
      | (.error e, d) => (.error (.cannotWrite name e), d)
      | (.ok (), d) => (.ok true, d)

/-- Copies the defaults of these names up to the first failure: the names of those copied. -/
def copyDefaults (base : Place) : List String → Disk → Except SetupError (List String) × Disk
  | [], d => (.ok [], d)
  | name :: names, d =>
    match copyDefault base name d with
    | (.error e, d) => (.error e, d)
    | (.ok copied, d) =>
      match copyDefaults base names d with
      | (.error e, d) => (.error e, d)
      | (.ok rest, d) => (.ok (if copied then name :: rest else rest), d)

/-- Sets up the configuration below a base directory: the names of the files written. -/
def run (base : Place) (d : Disk) : Except SetupError (List String) × Disk :=
  if !d.isDirectory (base ++ ["defaults"]) then
    (if d.isDirectory (base ++ ["config"]) then .ok [] else .error .nothingThere, d)
  else
    match d.ensureDirectory (base ++ ["config"]) with
    | (.error e, d) => (.error (.noDirectory e), d)
    | (.ok (), d) =>
      match d.list (base ++ ["defaults"]) with
      | (.error e, d) => (.error (.noList e), d)
      | (.ok names, d) => copyDefaults base (sources d base names) d

end Setup

/-- The configuration below a base directory. A file that cannot be read as text counts as none. -/
def Config.load (d : Disk) (base : String) : Except ConfigError Config :=
  let path := Path.join (Path.join base "config") "draft.toml"
  match (d.read (Setup.configPlace (Place.ofPath base) "draft.toml")).1 with
  | .error _ => .error (.fileNotFound path)
  | .ok bytes =>
    match Text.decodeUtf8 bytes with
    | .error _ => .error (.fileNotFound path)
    | .ok text => Config.parse path text

end SnakeDraft
