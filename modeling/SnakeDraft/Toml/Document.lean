import SnakeDraft.Toml.Moment
import SnakeDraft.Toml.Number
import SnakeDraft.Toml.Value

/-!
Reading TOML documents. `Toml.read?` gives the entries of a whole document, or nothing when the text
is not one. Keys have fewer than eighty parts, and values are nested less than eighty deep.
-/

namespace SnakeDraft.Toml

/-- Whether a character may stand in a key without quotes. -/
def isKeyChar (c : Char) : Bool :=
  c.isAlphanum || c == '_' || c == '-'

/-- One part of a key. -/
def keyPart? : Scanner String
  | '"' :: cs => lineText? ('"' :: cs)
  | '\'' :: cs => lineText? ('\'' :: cs)
  | cs =>
    let part := cs.takeWhile isKeyChar
    if part.isEmpty then none else some (String.ofList part, cs.dropWhile isKeyChar)

/-- The parts of a key with dots between them; `fuel` bounds their number. -/
def keyParts : Nat → Scanner (List String)
  | 0, _ => none
  | fuel + 1, cs => do
    let (part, rest) ← keyPart? (skipBlanks cs)
    match skipBlanks rest with
    | '.' :: rest =>
      let (parts, rest) ← keyParts fuel rest
      some (part :: parts, rest)
    | rest => some ([part], rest)

/-- The greatest number of parts of a key, and of values around a value. -/
def maxNesting : Nat := 79

/-- A key as the parts before its last one, and the last one. -/
def key? (cs : List Char) : Option ((List String × String) × List Char) := do
  let (parts, rest) ← keyParts maxNesting cs
  let last ← parts.getLast?
  some ((parts.dropLast, last), rest)

/-- The values of an array after its opening bracket or a comma; `fuel` bounds their number. -/
def arrayItems (value : Scanner Value) : Nat → Scanner (List Value)
  | 0, _ => none
  | fuel + 1, cs =>
    match skipSpace cs with
    | ']' :: rest => some ([], rest)
    | start => do
      let (item, rest) ← value start
      match skipSpace rest with
      | ',' :: rest =>
        let (items, rest) ← arrayItems value fuel rest
        some (item :: items, rest)
      | ']' :: rest => some ([item], rest)
      | _ => none

/-- The entries of a table in braces, added to those before; `fuel` bounds their number. -/
def braceEntries (value : Scanner Value) : Nat → Entries → Scanner Entries
  | 0, _, _ => none
  | fuel + 1, before, cs => do
    let ((path, key), rest) ← key? cs
    let rest ← expect? ['='] rest
    let (item, rest) ← value (skipBlanks rest)
    let entries ← insertAt? .braces before path key item
    match skipBlanks rest with
    | ',' :: rest => braceEntries value fuel entries rest
    | '\x7d' :: rest => some (entries, rest)
    | _ => none

/-- A date, a time or a number. -/
def scalarValue? (cs : List Char) : Option (Value × List Char) :=
  match moment? cs with
  | some rest => some (.moment, rest)
  | none => (number? cs).map fun
    | (.integer n, rest) => (.integer n, rest)
    | (.float x, rest) => (.float x, rest)

/-- A value with at most this many values around the innermost one. -/
def value? : Nat → Scanner Value
  | depth, '[' :: cs =>
    match depth with
    | 0 => none
    | depth + 1 =>
      (arrayItems (value? depth) (cs.length + 1) cs).map fun (items, rest) => (.array items, rest)
  | depth, '\x7b' :: cs =>
    match depth with
    | 0 => none
    | depth + 1 =>
      match skipBlanks cs with
      | '\x7d' :: rest => some (.table .braces [], rest)
      | _ =>
        (braceEntries (value? depth) (cs.length + 1) [] cs).map fun (entries, rest) =>
          (.table .braces entries, rest)
  | _, '"' :: cs => (text? ('"' :: cs)).map fun (s, rest) => (.text s, rest)
  | _, '\'' :: cs => (text? ('\'' :: cs)).map fun (s, rest) => (.text s, rest)
  | _, 't' :: cs => (expect? "rue".toList cs).map fun rest => (.boolean true, rest)
  | _, 'f' :: cs => (expect? "alse".toList cs).map fun rest => (.boolean false, rest)
  | _, cs => scalarValue? cs

/-- A document read up to some line. -/
structure Reading where
  root : Entries
  /-- The path of the table whose header was read last. -/
  header : List String

/-- The header of a table after its opening bracket. -/
def tableHeader? (reading : Reading) (cs : List Char) : Option (Reading × List Char) := do
  let ((path, key), rest) ← key? cs
  let rest ← expect? [']'] rest
  let rest ← finishLine? rest
  let root ← openTable? reading.root path key
  some (⟨root, path ++ [key]⟩, rest)

/-- The header of a table in an array after its opening brackets. -/
def itemHeader? (reading : Reading) (cs : List Char) : Option (Reading × List Char) := do
  let ((path, key), rest) ← key? cs
  let rest ← expect? [']', ']'] rest
  let rest ← finishLine? rest
  let root ← openItem? reading.root path key
  some (⟨root, path ++ [key]⟩, rest)

/-- A line with a key and a value. -/
def entryLine? (reading : Reading) (cs : List Char) : Option (Reading × List Char) := do
  let ((path, key), rest) ← key? cs
  let rest ← expect? ['='] rest
  let (item, rest) ← value? maxNesting (skipBlanks rest)
  let rest ← finishLine? rest
  let root ← insertUnder? reading.root reading.header path key item
  some ({ reading with root }, rest)

/-- The lines of a document, of which `fuel` bounds the number. -/
def readLines : Nat → Reading → List Char → Option Reading
  | 0, _, _ => none
  | fuel + 1, reading, cs =>
    match skipBlanks cs with
    | [] => some reading
    | '[' :: '[' :: cs => (itemHeader? reading cs).bind fun (r, rest) => readLines fuel r rest
    | '[' :: cs => (tableHeader? reading cs).bind fun (r, rest) => readLines fuel r rest
    | cs =>
      match finishLine? cs with
      | some rest => readLines fuel reading rest
      | none => (entryLine? reading cs).bind fun (r, rest) => readLines fuel r rest

/-- The entries of a document, which may start with a byte order mark. -/
def read? (document : String) : Option Entries :=
  let cs := match document.toList with
    | '\uFEFF' :: cs => cs
    | cs => cs
  (readLines (cs.length + 1) ⟨[], []⟩ cs).map (·.root)

end SnakeDraft.Toml
