import SnakeDraft.Config.Basic
import SnakeDraft.Toml.Document

/-!
The layout of a configuration file: which tables and fields it has, and of what kind. Fields that the
layout does not know are passed over. A table may also be written as an array of its fields in order;
a field that may be left out of a table may then be missing at the end, unless it stands for the
absence of a value.
-/

namespace SnakeDraft.Config

open Toml (Value)

/-- A table of a configuration as its fields, by name or in order. -/
inductive Section where
  | named (entries : List (String × Value))
  | ordered (items : List Value)

/-- The fields of a value. A date is a table with a field of its own that no layout knows. -/
def Section.ofValue? : Value → Option Section
  | .table _ entries => some (.named entries)
  | .array items => some (.ordered items)
  | .tables items => some (.ordered (items.map (.table .header)))
  | .moment => some (.named [])
  | _ => none

/-- The value of a field, if the section has it. -/
def Section.value? (s : Section) (index : Nat) (name : String) : Option Value :=
  match s with
  | .named entries => entries.lookup name
  | .ordered items => items[index]?

/-- A field that has to be there. -/
def Section.required {α : Type} (s : Section) (read : Value → Option α) (index : Nat)
    (name : String) : Option α :=
  (s.value? index name).bind read

/-- A field that has a default. -/
def Section.withDefault {α : Type} (s : Section) (read : Value → Option α) (index : Nat)
    (name : String) (default : α) : Option α :=
  match s.value? index name with
  | none => some default
  | some value => read value

/-- A field that may be absent. -/
def Section.optional {α : Type} (s : Section) (read : Value → Option α) (index : Nat)
    (name : String) : Option (Option α) :=
  s.withDefault (fun value => (read value).map some) index name none

/-- A field that may be absent by name but not in order. -/
def Section.optionalByName {α : Type} (s : Section) (read : Value → Option α) (index : Nat)
    (name : String) : Option (Option α) :=
  match s with
  | .named _ => s.optional read index name
  | .ordered _ => (s.required read index name).map some

/-- A whole number. -/
def readNat? : Value → Option Nat
  | .integer n => if 0 ≤ n then some n.toNat else none
  | _ => none

/-- A number, whole or not. -/
def readFloat? : Value → Option Float
  | .integer n => some (Float.ofInt n)
  | .float x => some x
  | _ => none

def readText? : Value → Option String
  | .text s => some s
  | _ => none

def readBool? : Value → Option Bool
  | .boolean b => some b
  | _ => none

/-- Whether a value is an array or a table with nothing in it. -/
def isHollow : Value → Bool
  | .array items => items.isEmpty
  | .tables items => items.isEmpty
  | .table _ entries => entries.isEmpty
  | _ => false

/-- A name out of some, as a text or as the only key of a table with nothing under it. -/
def readName? {α : Type} (names : List (String × α)) : Value → Option α
  | .text s => names.lookup s
  | .table _ [(key, value)] => if isHollow value then names.lookup key else none
  | _ => none

/-- Counts by key. -/
def readCounts? : Value → Option (List (String × Nat))
  | .table _ entries => entries.mapM fun (key, value) => (readNat? value).map (key, ·)
  | _ => none

/-- The draft section of a file, before defaults. -/
structure DraftSection where
  numTeams : Nat
  rounds : Option Nat
  myTeam : Option Nat
  roster : Option (List (String × Nat))

def readDraft? (value : Value) : Option DraftSection := do
  let s ← Section.ofValue? value
  some
    { numTeams := ← s.required readNat? 0 "num_teams"
      rounds := ← s.optionalByName readNat? 1 "rounds"
      myTeam := ← s.optionalByName readNat? 2 "my_team"
      roster := ← s.optionalByName readCounts? 3 "roster" }

def commitPolicies : List (String × CommitPolicy) :=
  [("mean_value", .meanValue), ("visit_count", .visitCount)]

def rolloutKinds : List (String × RolloutKind) :=
  [("uniform", .uniform), ("zscore", .zscore)]

def readSearch? (value : Value) : Option SearchOptions := do
  let s ← Section.ofValue? value
  let default : SearchOptions := {}
  some
    { secondsPerPick := ← s.withDefault readFloat? 0 "seconds_per_pick" default.secondsPerPick
      maxIterations := ← s.optional readNat? 1 "max_iterations"
      exploration := ← s.withDefault readFloat? 2 "exploration_constant" default.exploration
      commitPolicy :=
        ← s.withDefault (readName? commitPolicies) 3 "commit_policy" default.commitPolicy
      rollout := ← s.withDefault (readName? rolloutKinds) 4 "rollout" default.rollout
      seed := (← s.optional readNat? 5 "seed").map (·.toUInt64)
      workers := ← s.withDefault readNat? 6 "workers" default.workers }

def readData? (value : Value) : Option DataOptions := do
  let s ← Section.ofValue? value
  some
    { draftboard := ← s.required readText? 0 "draftboard"
      hasHeaders := ← s.withDefault readBool? 1 "has_headers" false }

def readDatabase? (value : Value) : Option (Option String) := do
  let s ← Section.ofValue? value
  s.optionalByName readText? 0 "path"

/-- A configuration file, before defaults that depend on other fields. -/
structure Layout where
  draft : DraftSection
  search : SearchOptions
  data : DataOptions
  database : Option String

def Layout.ofEntries? (entries : List (String × Value)) : Option Layout := do
  let s := Section.named entries
  some
    { draft := ← s.required readDraft? 0 "draft"
      search := ← s.withDefault readSearch? 1 "search" {}
      data := ← s.required readData? 2 "data"
      database := ← s.withDefault readDatabase? 3 "database" none }

/-- The layout of a text, if it is a document of this kind. -/
def Layout.read? (text : String) : Option Layout :=
  (Toml.read? text).bind Layout.ofEntries?

end SnakeDraft.Config
