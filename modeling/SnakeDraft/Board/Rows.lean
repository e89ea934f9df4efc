import SnakeDraft.Board.Basic
import SnakeDraft.Csv.Record
import SnakeDraft.Decimal.Reader
import SnakeDraft.Disk.Basic

/-!
Building a board from ranked rows. Rows come best first and the board keeps their order; the first
row at fault stops the building, so a board is never partial. `Board.addRow` checks one row against
the players above it, `Board.ofRows` builds the board, and `Board.ofRecords` reads its rows from
comma-separated records.
-/

namespace SnakeDraft

/-- One unread row of a ranking. -/
structure Row where
  /-- The line of the source, reported in errors. -/
  line : Nat
  name : String
  position : String
  points : String
deriving DecidableEq, Repr

/-- What is wrong with a row by itself or by its name. -/
inductive RowFault where
  | emptyName
  | duplicateName (name : String)
  | unknownPosition (text name : String)
  | unreadablePoints (text name : String)
  | pointsOutOfRange (points : Float) (name : String)
  | fieldCount (count : Nat)
deriving Repr

def RowFault.message : RowFault → String
  | emptyName => "empty player name"
  | duplicateName name => s!"duplicate player name '{name}'"
  | unknownPosition text name => s!"unknown position '{text}' for {name}"
  | unreadablePoints text name => s!"unparseable points '{text}' for {name}"
  | pointsOutOfRange points name =>
    s!"points must be finite and non-negative, got {Decimal.plain points} for {name}"
  | fieldCount count => s!"expected 3 or 4 fields, found {count}"

/-- Why there is no board. -/
inductive BoardError where
  /-- There is no file to open. -/
  | unreadable (path : String) (cause : DiskError)
  /-- The file could be opened and not be read. -/
  | interrupted (path : String) (cause : DiskError)
  | badEncoding (path : String) (error : Csv.EncodingError)
  | malformedRow (line : Nat) (fault : RowFault)
  /-- A row with more points than the row above it. -/
  | outOfOrder (line : Nat) (name : String) (points previous : Float)
deriving Repr

namespace BoardError

def message : BoardError → String
  | unreadable path cause => s!"failed to read {path}: {cause.message}"
  | interrupted path cause => s!"failed to parse CSV {path}: {cause.message}"
  | badEncoding path error => s!"failed to parse CSV {path}: {error.message}"
  | malformedRow line fault => s!"malformed row {line}: {fault.message}"
  | outOfOrder line name points previous =>
    s!"row {line} ('{name}') projects {Decimal.plain points} points, more than the " ++
      s!"{Decimal.plain previous} above it"

/-- The message and the messages of the causes under it. -/
def chain (e : BoardError) : List String :=
  e.message :: match e with
    | unreadable _ cause => [cause.message]
    | interrupted _ cause => [cause.message]
    | badEncoding _ error => [error.message]
    | _ => []

end BoardError

namespace Board

/-- The name of a row, if it is none of the players'. -/
def newName (players : Array Player) (row : Row) : Except RowFault String :=
  let name := Text.trim row.name
  if name = "" then .error .emptyName
  else if players.any fun p => Text.sameFold p.name name then .error (.duplicateName name)
  else .ok name

/-- The position and points of a row, for the player of this name. -/
def readRow (name : String) (row : Row) : Except RowFault (Position × Float) :=
  match Position.parsePlayer? row.position with
  | none => .error (.unknownPosition (Text.trim row.position) name)
  | some position =>
    match Decimal.read? (Text.trim row.points) with
    | none => .error (.unreadablePoints (Text.trim row.points) name)
    | some points =>
      if points.isFinite ∧ ¬ points < 0 then .ok (position, points)
      else .error (.pointsOutOfRange points name)

/-- The players with the player of one more row. -/
def addRow (players : Array Player) (row : Row) : Except BoardError (Array Player) :=
  match newName players row with
  | .error fault => .error (.malformedRow row.line fault)
  | .ok name =>
    match readRow name row with
    | .error fault => .error (.malformedRow row.line fault)
    | .ok (position, points) =>
      match players.back? with
      | some above =>
        if above.points < points then .error (.outOfOrder row.line name points above.points)
        else .ok (players.push ⟨name, position, points, players.size + 1⟩)
      | none => .ok (players.push ⟨name, position, points, players.size + 1⟩)

/-- The players with the players of more rows, or the error of the first row at fault. -/
def addRows (players : Array Player) : List Row → Except BoardError (Array Player)
  | [] => .ok players
  | row :: rows =>
    match addRow players row with
    | .error e => .error e
    | .ok players => addRows players rows

/-- The board of a list of rows. -/
def ofRows (rows : List Row) : Except BoardError Board :=
  (addRows #[] rows).map ofPlayers

/-- The row of a record: its three fields, or the last three of four, the first being a rank. -/
def rowOfRecord (record : Csv.Record) : Except BoardError Row :=
  match record.fields with
  | [name, position, points] | [_, name, position, points] =>
    .ok ⟨record.line, name, position, points⟩
  | fields => .error (.malformedRow record.line (.fieldCount fields.length))

/-- The rows of all records, or the error of the first record at fault. What a record that cannot be read
is reported as depends on the reader. -/
def rowsOfRecords {ε : Type} (report : ε → BoardError) :
    List (Except ε Csv.Record) → Except BoardError (List Row)
  | [] => .ok []
  | .error e :: _ => .error (report e)
  | .ok record :: records =>
    match rowOfRecord record with
    | .error e => .error e
    | .ok row => (rowsOfRecords report records).map (row :: ·)

/-- The board of the records of a file. All records are looked at before any row is. -/
def ofRecords {ε : Type} (report : ε → BoardError) (records : List (Except ε Csv.Record)) :
    Except BoardError Board :=
  match rowsOfRecords report records with
  | .error e => .error e
  | .ok rows => ofRows rows

/-- The board of a file of comma-separated values. -/
def ofCsv (path : String) (hasHeader : Bool) (bytes : List UInt8) : Except BoardError Board :=
  ofRecords (.badEncoding path) (Csv.read hasHeader bytes)

end Board

end SnakeDraft
