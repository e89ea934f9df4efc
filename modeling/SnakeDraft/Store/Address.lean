import SnakeDraft.Store.OpenMode
import SnakeDraft.Text.Utf8

/-!
What the name of a database stands for. A plain name is the path of a file, but for the empty name and
`:memory:`, which stand for a database that is thrown away. A name that starts with `file:` is an
address: a path in which any byte can be written in hexadecimal, and settings after a question mark
that choose how the file is opened.
-/

namespace SnakeDraft

/-- What is wrong with an address. -/
inductive AddressError where
  | foreignHost (host : String)
  | unknownMode (kind mode : String)
  | modeNotAllowed (mode : String)
  | unknownSystem (system : String)
deriving DecidableEq, Repr

namespace AddressError

def message : AddressError → String
  | foreignHost host => s!"invalid uri authority: {host}"
  | unknownMode kind mode => s!"no such {kind} mode: {mode}"
  | modeNotAllowed mode => s!"access mode not allowed: {mode}"
  | unknownSystem system => s!"no such vfs: {system}"

/-- The kind of failure that an error is reported as. -/
def kind : AddressError → String
  | modeNotAllowed _ => "Error code 3: Access permission denied"
  | _ => "Error code 1: SQL error or missing database"

end AddressError

/-- A database to open. -/
structure Address where
  /-- The path of its file; nothing for a database that is thrown away. -/
  path : Option String
  mode : OpenMode := {}
deriving DecidableEq, Repr

namespace Address

/-- The database of a path. -/
def ofPath (path : String) (mode : OpenMode) : Address :=
  ⟨if path = "" ∨ path = ":memory:" ∨ mode.access = .memory then none else some path, mode⟩

/-- The value of a hexadecimal digit. -/
def hexDigit? (b : UInt8) : Option UInt8 :=
  if '0'.toUInt8 ≤ b ∧ b ≤ '9'.toUInt8 then some (b - '0'.toUInt8)
  else if 'a'.toUInt8 ≤ b ∧ b ≤ 'f'.toUInt8 then some (b - 'a'.toUInt8 + 10)
  else if 'A'.toUInt8 ≤ b ∧ b ≤ 'F'.toUInt8 then some (b - 'A'.toUInt8 + 10)
  else none

/-- The byte whose value stands at the start of a part of an address, in two hexadecimal digits after
a `%`. -/
def escape? : List UInt8 → Option UInt8
  | b :: high :: low :: _ => do
    guard (b = '%'.toUInt8)
    return 16 * (← hexDigit? high) + (← hexDigit? low)
  | _ => none

/-- The bytes that a part of an address stands for. -/
def unescape : List UInt8 → List UInt8
  | [] => []
  | b :: rest =>
    match escape? (b :: rest) with
    | some x => x :: unescape (rest.drop 2)
    | none => b :: unescape rest
termination_by bytes => bytes.length
decreasing_by
  · simp only [List.length_drop, List.length_cons]; omega
  · simp

/-- The text of a part of an address, which ends before the first zero byte. Bytes that encode no text
are taken for the characters of their values. -/
def textOf (part : List UInt8) : String :=
  let bytes := (unescape part).takeWhile (· ≠ 0)
  match Text.decodeUtf8 bytes with
  | .ok text => text
  | .error _ => String.ofList (bytes.map fun b => Char.ofNat b.toNat)

/-- The part of an address before the first byte of this value, and the part after it. -/
def splitFirst (separator : Char) (bytes : List UInt8) : List UInt8 × List UInt8 :=
  (bytes.takeWhile (· ≠ separator.toUInt8), (bytes.dropWhile (· ≠ separator.toUInt8)).drop 1)

/-- The parts of an address between the bytes of this value. -/
def splitAll (separator : Char) (bytes : List UInt8) : List (List UInt8) :=
  bytes.foldr (fun b parts =>
    if b = separator.toUInt8 then [] :: parts
    else (b :: parts.headD []) :: parts.tail) [[]]

/-- The mode with one more setting. -/
def setting (m : OpenMode) (name value : String) : Except AddressError OpenMode :=
  match name with
  | "vfs" => .ok { m with system := value }
  | "cache" =>
    if value = "shared" ∨ value = "private" then .ok m else .error (.unknownMode "cache" value)
  | "mode" =>
    match Access.ofName? value with
    | none => .error (.unknownMode "access" value)
    | some access =>
      if m.access.bound < access.demand then .error (.modeNotAllowed value)
      else .ok { m with access }
  | _ => .ok { m with parameters := m.parameters ++ [(name, value)] }

/-- The mode with the settings of some parts, each a name, an equals sign and a value. A part without a
name is nothing. -/
def settings (m : OpenMode) : List (List UInt8) → Except AddressError OpenMode
  | [] => .ok m
  | part :: parts =>
    let (name, value) := splitFirst '=' part
    if textOf name = "" then settings m parts
    else
      match setting m (textOf name) (textOf value) with
      | .error e => .error e
      | .ok m => settings m parts

/-- The names of the file systems that keep files. -/
def fileSystems : List String := ["unix", "unix-none", "unix-dotfile", "unix-excl"]

/-- The database of a path on the file system of its mode. One in memory can be immutable too, if it has
a path. -/
def onSystem (path : String) (m : OpenMode) : Except AddressError Address :=
  let address := ofPath path m
  if fileSystems.contains m.system then .ok address
  else if m.system ≠ "memdb" then .error (.unknownSystem m.system)
  else if address.path.isSome ∧ m.isImmutable then .ok ⟨none, { m with access := .readOnly }⟩
  else .ok ⟨none, m⟩

/-- The part of an address after the name of a host, which can only be this one. -/
def skipHost (bytes : List UInt8) : Except AddressError (List UInt8) :=
  match bytes with
  | a :: b :: rest =>
    if a = '/'.toUInt8 ∧ b = '/'.toUInt8 then
      let host := rest.takeWhile (· ≠ '/'.toUInt8)
      if host = [] ∨ host = "localhost".toUTF8.toList then .ok (rest.dropWhile (· ≠ '/'.toUInt8))
      else .error (.foreignHost (match Text.decodeUtf8 host with
        | .ok text => text
        | .error _ => ""))
    else .ok bytes
  | _ => .ok bytes

/-- The database of an address, which is read up to the first `#`. -/
def ofBytes (bytes : List UInt8) : Except AddressError Address :=
  match skipHost bytes with
  | .error e => .error e
  | .ok bytes =>
    let (path, parts) := splitFirst '?' (splitFirst '#' bytes).1
    match settings {} (splitAll '&' parts) with
    | .error e => .error e
    | .ok m => onSystem (textOf path) m

/-- The database of a name. -/
def ofName (name : String) : Except AddressError Address :=
  if name.startsWith "file:" then ofBytes (name.toUTF8.toList.drop 5)
  else .ok (ofPath name {})

end Address

end SnakeDraft
