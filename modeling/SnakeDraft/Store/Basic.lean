import SnakeDraft.Disk.Basic
import SnakeDraft.Json.Text
import SnakeDraft.Store.Address
import SnakeDraft.Store.Fault

/-!
The store of drafts: their picks, their trades, and which draft is the current one. Picks and trades
belong to a draft and a pick number. The first pick stored under a number stays until it is removed;
of two trades of one pick the later one holds.
-/

namespace SnakeDraft

/-- How a stored pick was used. -/
inductive PickKind where
  | drafted
  | benched
  | passed
deriving DecidableEq, Repr

namespace PickKind

def name : PickKind → String
  | drafted => "drafted"
  | benched => "benched"
  | passed => "passed"

def ofName? : String → Option PickKind
  | "drafted" => some drafted
  | "benched" => some benched
  | "passed" => some passed
  | _ => none

@[simp] theorem ofName?_name (k : PickKind) : ofName? k.name = some k := by
  cases k <;> rfl

end PickKind

/-- A pick as it is stored. The player is stored by name, so that a ranking may change under a
draft. -/
structure StoredPick where
  number : Nat
  round : Nat
  team : Nat
  kind : PickKind
  player : Option String
  position : Option String
deriving DecidableEq, Repr

/-- One stored row of a pick, with the text that stands for its kind. -/
structure PickRow where
  draft : String
  number : Nat
  round : Nat
  team : Nat
  kind : String
  player : Option String
  position : Option String
deriving DecidableEq, Repr

/-- One stored row of a trade. -/
structure TradeRow where
  draft : String
  number : Nat
  team : Nat
deriving DecidableEq, Repr

/-- Why the store refuses. -/
inductive StoreError where
  | cannotSave (number : Nat) (cause : StoreFault)
  | cannotRemove (number : Nat) (cause : StoreFault)
  | cannotTrade (number : Nat) (cause : StoreFault)
  | cannotRegister (draft : String) (cause : StoreFault)
  | unknownKind (number : Int) (kind : String)
  | corruptCurrent
  /-- The directory of the store cannot be created. -/
  | noDirectory (path : String) (cause : DiskError)
  /-- A zero character stands in the name after this many bytes. -/
  | zeroInName (name : String) (position : Nat)
  | badAddress (name : String) (cause : AddressError)
  | cannotOpen (name : String) (cause : StoreFault)
  | cannotConfigure (cause : StoreFault)
  | cannotCreateTables (cause : StoreFault)
deriving DecidableEq, Repr

namespace StoreError

def message : StoreError → String
  | cannotSave number _ => s!"cannot save pick {number}"
  | cannotRemove number _ => s!"cannot remove pick {number}"
  | cannotTrade number _ => s!"cannot save trade of pick {number}"
  | cannotRegister draft _ => s!"cannot register draft {draft}"
  | unknownKind number kind => s!"pick {number} has unknown kind '{kind}'"
  | corruptCurrent => "corrupt current draft id"
  | noDirectory path _ => s!"cannot create {path}"
  | zeroInName name _ | badAddress name _ | cannotOpen name _ => s!"cannot open database {name}"
  | cannotConfigure _ => "cannot configure database"
  | cannotCreateTables _ => "cannot create database tables"

/-- The message and the messages of the causes under it, as far as they are known. -/
def chain (e : StoreError) : List String :=
  e.message :: match e with
    | cannotSave _ cause | cannotRemove _ cause | cannotTrade _ cause | cannotRegister _ cause
    | cannotConfigure cause | cannotCreateTables cause => cause.chain
    | noDirectory _ cause => [cause.message]
    | zeroInName _ position =>
      let report := s!"nul byte found in provided data at position: {position}"
      [report, report]
    | badAddress _ cause => [cause.message, cause.kind]
    | cannotOpen name .cannotOpen =>
      s!"unable to open database file: {name}" :: StoreFault.cannotOpen.chain.drop 1
    | cannotOpen _ cause => cause.chain
    | unknownKind .. | corruptCurrent => []

end StoreError

/-- The value by which a number is ordered: numbers are stored in 64 bits with a sign. -/
def orderKey (n : Nat) : Int :=
  (n : Int).bmod UInt64.size

namespace PickRow

/-- Whether a row is the pick of a draft with a number. -/
def isAt (draft : String) (number : Nat) (row : PickRow) : Bool :=
  row.draft == draft && row.number == number

/-- The pick of a row. -/
def toPick (row : PickRow) : Except StoreError StoredPick :=
  match PickKind.ofName? row.kind with
  | some kind => .ok ⟨row.number, row.round, row.team, kind, row.player, row.position⟩
  | none => .error (.unknownKind (orderKey row.number) row.kind)

end PickRow

/-- All stored drafts. -/
structure Store where
  /-- The ids of all drafts ever started. -/
  drafts : List String
  /-- The id of the current draft, as a JSON string. -/
  current : Option String
  picks : List PickRow
  trades : List TradeRow
deriving DecidableEq, Repr

namespace Store

def empty : Store := ⟨[], none, [], []⟩

/-- Starts a draft and makes it the current one. -/
def newDraft (s : Store) (draft : String) : Except StoreError Store :=
  if s.drafts.contains draft then .error (.cannotRegister draft .failure)
  else .ok { s with drafts := s.drafts ++ [draft], current := some (Json.quote draft) }

/-- The id of the current draft, if one was ever started. -/
def currentDraft (s : Store) : Except StoreError (Option String) :=
  match s.current with
  | none => .ok none
  | some text =>
    match Json.unquote? text with
    | some draft => .ok (some draft)
    | none => .error .corruptCurrent

/-- Stores a pick, unless one is stored under its number. -/
def savePick (s : Store) (draft : String) (p : StoredPick) : Store :=
  if s.picks.any (PickRow.isAt draft p.number) then s
  else
    let row : PickRow := ⟨draft, p.number, p.round, p.team, p.kind.name, p.player, p.position⟩
    { s with picks := s.picks ++ [row] }

/-- Removes a pick: whether it was stored, and the store without it. -/
def removePick (s : Store) (draft : String) (number : Nat) : Bool × Store :=
  (s.picks.any (PickRow.isAt draft number),
    { s with picks := s.picks.filter fun row => !PickRow.isAt draft number row })

/-- The picks of some rows, or the error of the first row at fault. -/
def toPicks : List PickRow → Except StoreError (List StoredPick)
  | [] => .ok []
  | row :: rows =>
    match row.toPick with
    | .error e => .error e
    | .ok p => (toPicks rows).map (p :: ·)

/-- The rows of a draft's picks in their order. -/
def pickRows (s : Store) (draft : String) : List PickRow :=
  (s.picks.filter fun row => row.draft == draft).mergeSort fun a b =>
    orderKey a.number ≤ orderKey b.number

/-- The picks of a draft in their order. -/
def picksOf (s : Store) (draft : String) : Except StoreError (List StoredPick) :=
  toPicks (s.pickRows draft)

/-- Stores a trade in place of any earlier one of the same pick. -/
def saveTrade (s : Store) (draft : String) (number team : Nat) : Store :=
  let others := s.trades.filter fun row => !(row.draft == draft && row.number == number)
  { s with trades := others ++ [⟨draft, number, team⟩] }

/-- The traded picks of a draft in their order, each with its owner. -/
def tradesOf (s : Store) (draft : String) : List (Nat × Nat) :=
  let rows := s.trades.filter fun row => row.draft == draft
  (rows.mergeSort fun a b => orderKey a.number ≤ orderKey b.number).map fun row =>
    (row.number, row.team)

end Store

end SnakeDraft
