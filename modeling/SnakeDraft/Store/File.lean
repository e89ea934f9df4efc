import SnakeDraft.Store.Basic
import SnakeDraft.Text.Utf8

/-!
The file of a store: a heading, and a text with one line for each draft, pick and trade, and one for the
current draft. A line is a word that says what it holds and then its values, each after one blank.
`StoreFile.toBytes` writes a file and `StoreFile.ofBytes?` reads it.
-/

namespace SnakeDraft

namespace StoreFile

/-- A value on a line. -/
inductive Field where
  | absent
  | number (n : Nat)
  | text (s : String)
deriving DecidableEq, Repr

def Field.ofOption : Option String → Field
  | some s => .text s
  | none => .absent

/-- The written form of a value: absence is a dash, and texts are quoted. -/
def Field.render : Field → String
  | .absent => "-"
  | .number n => toString n
  | .text s => Json.quote s

def renderLine (word : String) (fields : List Field) : String :=
  " ".intercalate (word :: fields.map (·.render)) ++ "\n"

def digitsValue (digits : List Char) : Nat :=
  digits.foldl (fun n c => 10 * n + (c.toNat - '0'.toNat)) 0

/-- A value and what comes after it. -/
def readField? : List Char → Option (Field × List Char)
  | '"' :: cs => (Json.unquoted (cs.length + 1) cs).map fun (s, rest) => (.text (String.ofList s), rest)
  | '-' :: cs => some (.absent, cs)
  | cs =>
    let digits := cs.takeWhile Char.isDigit
    if digits.isEmpty then none else some (.number (digitsValue digits), cs.dropWhile Char.isDigit)

/-- The values on the rest of a line, each after one blank; `fuel` bounds their number. -/
def readFields? : Nat → List Char → Option (List Field)
  | _, [] => some []
  | fuel + 1, ' ' :: cs => do
    let (field, rest) ← readField? cs
    let fields ← readFields? fuel rest
    some (field :: fields)
  | _, _ => none

/-- The store with what one more line holds. -/
def addLine? (s : Store) (line : String) : Option Store := do
  let cs := line.toList
  let word := String.ofList (cs.takeWhile (· ≠ ' '))
  let fields ← readFields? cs.length (cs.dropWhile (· ≠ ' '))
  let optional : Field → Option (Option String)
    | .absent => some none
    | .text t => some (some t)
    | .number _ => none
  match word, fields with
  | "draft", [.text id] => some { s with drafts := s.drafts ++ [id] }
  | "current", [.text id] => some { s with current := some id }
  | "pick", [.text draft, .number number, .number round, .number team, .text kind, player, position] =>
    let player ← optional player
    let position ← optional position
    some { s with picks := s.picks ++ [⟨draft, number, round, team, kind, player, position⟩] }
  | "trade", [.text draft, .number number, .number team] =>
    some { s with trades := s.trades ++ [⟨draft, number, team⟩] }
  | _, _ => none

end StoreFile

namespace Store

open StoreFile

/-- The lines of the file of a store. -/
def toLines (s : Store) : List String :=
  s.drafts.map (fun id => renderLine "draft" [.text id]) ++
    s.current.toList.map (fun id => renderLine "current" [.text id]) ++
    s.picks.map (fun p => renderLine "pick"
      [.text p.draft, .number p.number, .number p.round, .number p.team, .text p.kind,
        .ofOption p.player, .ofOption p.position]) ++
    s.trades.map fun t => renderLine "trade" [.text t.draft, .number t.number, .number t.team]

/-- The text of a store. -/
def toText (s : Store) : String :=
  String.join s.toLines

/-- The store of a text, if it is the text of one. -/
def ofText? (text : String) : Option Store :=
  ((text.splitOn "\n").filter (· ≠ "")).foldlM addLine? empty

end Store

/-- How changes to a file are kept from being broken off: they are written ahead into a log, which takes
memory that programs share, or what they replace is kept until they are done. -/
inductive Journaling where
  | ahead
  | rollback
deriving DecidableEq, Repr

/-- What the file of a database holds. -/
structure StoreFile where
  journaling : Journaling
  /-- The store, once there are tables for it. -/
  store : Option Store
deriving DecidableEq, Repr

namespace StoreFile

/-- The file that holds nothing yet. -/
def blank : StoreFile := ⟨.rollback, none⟩

/-- The byte that stands for a way of journaling. -/
def versionOf : Journaling → UInt8
  | .rollback => 1
  | .ahead => 2

/-- The number of bytes at the start of a file that say what it is. -/
def headingSize : Nat := 100

/-- The bytes at the start of a file: a name, the way of journaling, zeros, and at the end one that no
text has there, so that no program takes a store for a text. -/
def heading (j : Journaling) : List UInt8 :=
  let name := "snake drafts".toUTF8.toList ++ [versionOf j]
  name ++ List.replicate (headingSize - 2 - name.length) 0 ++ [0x82, 0]

/-- The first line after the heading, once there are tables. -/
def tablesLine : String := "tables\n"

/-- The text of a file. -/
def toText (f : StoreFile) : String :=
  match f.store with
  | some s => tablesLine ++ s.toText
  | none => ""

/-- The bytes of a file: the heading, and the text with a zero after it. -/
def toBytes (f : StoreFile) : List UInt8 :=
  heading f.journaling ++ f.toText.toUTF8.toList ++ [0]

/-- Whether the bytes of a file count as none: a single byte is what a file can hold before anything is
written to it. -/
def isBlank (bytes : List UInt8) : Bool :=
  bytes.length ≤ 1

/-- What the text of a file holds. -/
def storeOf? (text : String) : Option (Option Store) :=
  if text = "" then some none
  else if text.startsWith tablesLine then
    (Store.ofText? (String.ofList (text.toList.drop tablesLine.length))).map some
  else none

/-- The text that some bytes start with, up to a zero. What comes after that does not matter. -/
def textOf? (bytes : List UInt8) : Option String :=
  if bytes.contains 0 then (Text.decodeUtf8 (bytes.takeWhile (· ≠ 0))).toOption else none

/-- What the bytes of a file hold, if it is the file of a database. -/
def ofBytes? (bytes : List UInt8) : Option StoreFile :=
  if isBlank bytes then some blank
  else
    let journaling : Option Journaling :=
      [.ahead, .rollback].find? fun j => bytes.take headingSize == heading j
    let store := (textOf? (bytes.drop headingSize)).bind storeOf?
    journaling.bind fun j => store.map (StoreFile.mk j)

end StoreFile

end SnakeDraft
