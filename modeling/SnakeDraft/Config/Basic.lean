import SnakeDraft.Requirements
import SnakeDraft.Search.Settings

/-!
League configurations, and what can be wrong with one.
-/

namespace SnakeDraft

/-- The options of the draft itself. -/
structure DraftOptions where
  numTeams : Nat
  rounds : Nat
  /-- The user's team, which is only marked in the output. -/
  myTeam : Option Nat
  requirements : Requirements
deriving Repr

/-- Where the ranked players come from. -/
structure DataOptions where
  /-- The path of the file with the ranking. -/
  draftboard : String
  /-- Whether its first record is a header. -/
  hasHeaders : Bool
deriving DecidableEq, Repr

/-- The configuration of a league. -/
structure Config where
  draft : DraftOptions
  search : SearchOptions
  data : DataOptions
  /-- The path of the database, if it is not the user's own. -/
  database : Option String
deriving Repr

/-- What is wrong with one entry of the roster. -/
inductive RosterFault where
  | unknownPosition
  | tooManySlots
  | repeated (position : Position)
deriving DecidableEq, Repr

/-- What is wrong with the values of a configuration. -/
inductive ConfigFault where
  /-- A number that must be at least one. -/
  | belowOne (field : String)
  /-- A number that must be positive and finite. -/
  | notPositive (field : String)
  /-- A text that must not be blank. -/
  | blank (field : String)
  | teamOutOfRange (numTeams : Nat)
  | noSlots
  | roster (key : String) (fault : RosterFault)
deriving DecidableEq, Repr

namespace ConfigFault

/-- The field at fault. -/
def field : ConfigFault → String
  | belowOne field | notPositive field | blank field => field
  | teamOutOfRange _ => "draft.my_team"
  | noSlots => "draft.roster"
  | roster key _ => s!"draft.roster.{key}"

/-- What is wrong with the field. -/
def detail : ConfigFault → String
  | belowOne _ => "must be at least 1"
  | notPositive _ => "must be a positive number"
  | blank _ => "must not be empty"
  | teamOutOfRange numTeams => s!"must be below num_teams ({numTeams})"
  | noSlots => "at least one slot is required"
  | roster key .unknownPosition => s!"unknown position '{key}'"
  | roster _ .tooManySlots => "at most 255 slots per position"
  | roster _ (.repeated position) => s!"{position.code} is listed more than once"

end ConfigFault

/-- Why there is no configuration. -/
inductive ConfigError where
  | fileNotFound (path : String)
  /-- The file is not a document with the fields of a configuration. -/
  | unreadable (path : String)
  | invalid (fault : ConfigFault)
deriving DecidableEq, Repr

def ConfigError.message : ConfigError → String
  | fileNotFound path => s!"no config file at {path}"
  | unreadable path => s!"{path} is not a valid draft config"
  | invalid fault => s!"invalid `{fault.field}`: {fault.detail}"

end SnakeDraft
