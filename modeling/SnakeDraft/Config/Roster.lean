import SnakeDraft.Config.Basic

/-!
Roster requirements from a table of counts by key. The keys are read in their own order, whatever the
order of the table, so that the first key at fault is always the same.
-/

namespace SnakeDraft.Config

/-- The count for one more key, after the counts of other positions. -/
def readCount (counts : List (Position × UInt8)) (key : String) (count : Nat) :
    Except RosterFault (Position × UInt8) :=
  match Position.parse? key with
  | none => .error .unknownPosition
  | some position =>
    if 255 < count then .error .tooManySlots
    else if counts.any fun c => c.1 == position then .error (.repeated position)
    else .ok (position, count.toUInt8)

/-- The counts after those of more keys. -/
def readCounts (counts : List (Position × UInt8)) :
    List (String × Nat) → Except ConfigFault (List (Position × UInt8))
  | [] => .ok counts
  | (key, count) :: rest =>
    match readCount counts key count with
    | .error fault => .error (.roster key fault)
    | .ok entry => readCounts (counts ++ [entry]) rest

/-- The requirements that a table of counts describes. -/
def requirementsOf (table : List (String × Nat)) : Except ConfigFault Requirements :=
  (readCounts [] (table.mergeSort fun a b => !(b.1 < a.1))).map .ofCounts

end SnakeDraft.Config
