import SnakeDraft.Session.Play
import SnakeDraft.Session.Restore

/-!
Playing a draft through a session, operation by operation, and through several sessions one after the other,
each opened on the store that the one before leaves behind.
-/

namespace SnakeDraft

/-- What can be asked of a session. -/
inductive Operation where
  | makePick (name : String)
  | bench (name : String)
  | autoPick (clock : Clock)
  | undo
  | givePick (index team : Nat)
  | reset (freshId : String)

/-- The id of the draft that an operation starts. -/
def Operation.freshId? : Operation → Option String
  | reset freshId => some freshId
  | _ => none

/-- The result of an operation. -/
inductive Reply where
  | picked (result : Except SessionError PickRecord)
  | undone (result : Except SessionError (Option PickRecord))
  | done (result : Except SessionError Unit)

/-- What a new session draws: an id for the draft that a store may lack, and a seed. -/
structure Launch where
  freshId : String
  freshSeed : UInt64

namespace Session

def perform (s : Session) : Operation → Reply × Session
  | .makePick name => ((.picked (s.makePick name).1), (s.makePick name).2)
  | .bench name => ((.picked (s.bench name).1), (s.bench name).2)
  | .autoPick clock => ((.picked (s.autoPick clock).1), (s.autoPick clock).2)
  | .undo => ((.undone s.undo.1), s.undo.2)
  | .givePick index team => ((.done (s.givePick index team).1), (s.givePick index team).2)
  | .reset freshId => ((.done (s.reset freshId).1), (s.reset freshId).2)

/-- The results of operations, and the session after them. -/
def performAll (s : Session) : List Operation → List Reply × Session
  | [] => ([], s)
  | op :: ops =>
    let (replies, t) := (s.perform op).2.performAll ops
    ((s.perform op).1 :: replies, t)

/-- The selection that an operation comes to, for the operations that make a pick. -/
def choice? (s : Session) : Operation → Option (Except SessionError Selection)
  | .makePick name => some <|
    match s.board.find? name with
    | none => .error (.pick (.unknownPlayer name))
    | some id => .ok (.drafted id)
  | .bench name => some <|
    match s.board.find? name with
    | none => .error (.pick (.unknownPlayer name))
    | some id => .ok (.benched id)
  | .autoPick clock => some ((s.think clock).map (·.choice.selection))
  | _ => none

/-- The session after a selection, unless there is none. -/
def answer (s : Session) : Except SessionError Selection → Reply × Session
  | .error e => (.picked (.error e), s)
  | .ok selection => (.picked (s.commitPick selection).1, (s.commitPick selection).2)

theorem perform_of_choice {s : Session} {op : Operation} {choice : Except SessionError Selection}
    (h : s.choice? op = some choice) : s.perform op = s.answer choice := by
  cases op with
  | makePick name =>
    obtain rfl := Option.some.inj h
    show (Reply.picked (s.makePick name).1, (s.makePick name).2) = _
    unfold makePick
    cases s.board.find? name <;> rfl
  | bench name =>
    obtain rfl := Option.some.inj h
    show (Reply.picked (s.bench name).1, (s.bench name).2) = _
    unfold bench
    cases s.board.find? name <;> rfl
  | autoPick clock =>
    obtain rfl := Option.some.inj h
    show (Reply.picked (s.autoPick clock).1, (s.autoPick clock).2) = _
    unfold autoPick
    cases s.think clock <;> rfl
  | undo => cases h
  | givePick index team => cases h
  | reset freshId => cases h

/-- Opens a session with a database. -/
def launch (overflow : Overflow) (config : Config) (board : Board) (db : Database) (l : Launch) :
    Except SessionError Session :=
  match start overflow config board l.freshId l.freshSeed with
  | .error e => .error e
  | .ok s => s.attach db l.freshId

/-- Opens a new session on the store that a session leaves behind, in the same program with the same league and
board. -/
def reopen (s : Session) (l : Launch) : Except SessionError Session :=
  launch s.overflow s.config s.board (.ofStore ((s.database.map (·.store)).getD .empty)) l

end Session

/-- What happens to a draft: an operation, or the session is closed and another one is opened. -/
inductive Event where
  | operate (op : Operation)
  | reopen (l : Launch)

def Event.operation? : Event → Option Operation
  | operate op => some op
  | reopen _ => none

/-- The results of all operations among some events, and the last session. -/
def Session.runAll (s : Session) : List Event → Except SessionError (List Reply × Session)
  | [] => .ok ([], s)
  | .operate op :: events =>
    match (s.perform op).2.runAll events with
    | .error e => .error e
    | .ok (replies, t) => .ok ((s.perform op).1 :: replies, t)
  | .reopen l :: events =>
    match s.reopen l with
    | .error e => .error e
    | .ok t => t.runAll events

end SnakeDraft
