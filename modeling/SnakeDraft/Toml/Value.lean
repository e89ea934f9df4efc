/-!
TOML values. A table remembers how it came about, because that decides what may still be added to it;
`insertAt?` adds a value at a path of keys and refuses what a document must not say twice.
-/

namespace SnakeDraft.Toml

/-- How a table came about. -/
inductive Origin where
  /-- Written between braces. Nothing can be added to it. -/
  | braces
  /-- By a header of its own, as the root of the document is. -/
  | header
  /-- By the header of a table inside it. -/
  | longerHeader
  /-- By a key of several parts. -/
  | dottedKey
deriving DecidableEq, Repr

inductive Value where
  | text (s : String)
  | integer (n : Int)
  | float (x : Float)
  | boolean (b : Bool)
  | moment
  | array (items : List Value)
  /-- An array whose tables have headers of their own, the open one last. -/
  | tables (items : List (List (String × Value)))
  | table (origin : Origin) (entries : List (String × Value))
deriving Repr, Inhabited

/-- The entries of a table, in the order in which they were added. -/
abbrev Entries := List (String × Value)

/-- Whether a walk along keys may enter a table: the parts of a header enter every table but those in
braces, the parts of a key only those that have no header of their own. -/
def Origin.canEnter (byHeader : Bool) : Origin → Bool
  | .braces => false
  | .header => byHeader
  | .longerHeader | .dottedKey => true

/-- The entries with the value of a key replaced, or added when the key is new. -/
def replace (entries : Entries) (key : String) (value : Value) : Entries :=
  match entries with
  | [] => [(key, value)]
  | (k, v) :: rest => if k = key then (k, value) :: rest else (k, v) :: replace rest key value

/-- The last of a list of tables changed, if there is one. -/
def changeLast? (change : Entries → Option Entries) : List Entries → Option (List Entries)
  | [] => none
  | [last] => (change last).map fun last => [last]
  | t :: ts => (changeLast? change ts).map fun ts => t :: ts

/-- The entries after a change to the table at the end of a path, whose origin the change is told.
Missing tables on the way are added. -/
def changeAt? (byHeader : Bool) (change : Origin → Entries → Option Entries) (origin : Origin)
    (entries : Entries) : List String → Option Entries
  | [] => change origin entries
  | key :: path =>
    match entries.lookup key with
    | none =>
      let origin : Origin := if byHeader then .longerHeader else .dottedKey
      (changeAt? byHeader change origin [] path).map fun inner =>
        replace entries key (.table origin inner)
    | some (.table origin inner) =>
      if origin.canEnter byHeader then
        (changeAt? byHeader change origin inner path).map fun inner =>
          replace entries key (.table origin inner)
      else none
    | some (.tables items) =>
      (changeLast? (fun inner => changeAt? byHeader change .header inner path) items).map
        fun items => replace entries key (.tables items)
    | some _ => none

/-- The entries of a table with a value added below it: at a key of its own, or at the last of several
keys. The tables on the way belong to keys of several parts only. -/
def insertAt? (origin : Origin) (entries : Entries) (path : List String) (key : String)
    (value : Value) : Option Entries :=
  let add (origin : Origin) (entries : Entries) : Option Entries :=
    if (origin = .dottedKey) ↔ path = [] then none
    else if (entries.lookup key).isSome then none
    else some (entries ++ [(key, value)])
  changeAt? false add origin entries path

/-- The entries of a document after the header of a table. -/
def openTable? (root : Entries) (path : List String) (key : String) : Option Entries :=
  let create (_ : Origin) (entries : Entries) : Option Entries :=
    match entries.lookup key with
    | none => some (entries ++ [(key, .table .header [])])
    | some (.table .longerHeader inner) => some (replace entries key (.table .header inner))
    | some _ => none
  changeAt? true create .header root path

/-- The entries of a document after the header of a table in an array. -/
def openItem? (root : Entries) (path : List String) (key : String) : Option Entries :=
  let create (_ : Origin) (entries : Entries) : Option Entries :=
    match entries.lookup key with
    | none => some (entries ++ [(key, .tables [[]])])
    | some (.tables items) => some (replace entries key (.tables (items ++ [[]])))
    | some _ => none
  changeAt? true create .header root path

/-- The entries of a document with a value added in the table whose header was read last. -/
def insertUnder? (root : Entries) (header path : List String) (key : String) (value : Value) :
    Option Entries :=
  changeAt? true (fun origin entries => insertAt? origin entries path key value) .header root header

end SnakeDraft.Toml
