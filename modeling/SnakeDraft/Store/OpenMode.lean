/-!
How the file of a database is opened. An address can ask for another access to the file than usual,
for another file system, and by further parameters for still other ways; a parameter is on if its
value says yes.
-/

namespace SnakeDraft

/-- What a file is opened for. -/
inductive Access where
  | readOnly
  /-- Reading and writing, if it is there. -/
  | existing
  /-- Reading and writing, and it is made if it is not there. -/
  | create
  /-- There is no file. -/
  | memory
deriving DecidableEq, Repr

namespace Access

def ofName? : String → Option Access
  | "ro" => some readOnly
  | "rw" => some existing
  | "rwc" => some create
  | "memory" => some memory
  | _ => none

/-- How much an access asks for. -/
def demand : Access → Nat
  | readOnly => 1
  | existing => 2
  | create => 3
  | memory => 0

/-- The most that a later setting may ask for. -/
def bound : Access → Nat
  | memory => 3
  | access => access.demand

end Access

namespace Answer

/-- The value of a digit. -/
def digitValue (c : Char) : Nat :=
  if c.isDigit then c.toNat - '0'.toNat else c.toLower.toNat - 'a'.toNat + 10

def isHexDigit (c : Char) : Bool :=
  c.isDigit || ('a' ≤ c.toLower && c.toLower ≤ 'f')

/-- The number of the digits that some text starts with. -/
def numberIn (base : Nat) (isDigit : Char → Bool) (cs : List Char) : Nat :=
  (cs.takeWhile isDigit).foldl (fun n c => base * n + digitValue c) 0

/-- The greatest number that an answer can be. -/
def greatest : Nat := 2147483647

/-- The number that some text starts with, in hexadecimal digits after `0x` and in decimal ones
otherwise. A number that is too great counts as zero. -/
def number (cs : List Char) : Nat :=
  let n := match cs with
    | '0' :: 'x' :: c :: rest | '0' :: 'X' :: c :: rest =>
      if isHexDigit c then numberIn 16 isHexDigit (c :: rest) else 0
    | _ => numberIn 10 Char.isDigit cs
  if n ≤ greatest then n else 0

/-- Whether a text says yes: in a word, or by a number whose last byte is not zero. -/
def isYes (text : String) : Bool :=
  match text.toList with
  | [] => false
  | c :: cs =>
    if c.isDigit then number (c :: cs) % 256 != 0
    else ["on", "yes", "true"].contains text.toLower

end Answer

/-- The way in which the file of a database is opened. -/
structure OpenMode where
  access : Access := .create
  /-- The name of the file system. -/
  system : String := "unix"
  /-- The values of all parameters by their names. -/
  parameters : List (String × String) := []
deriving DecidableEq, Repr

namespace OpenMode

/-- The value of a parameter. Of several the first one counts. -/
def parameter? (m : OpenMode) (name : String) : Option String :=
  m.parameters.lookup name

def isOn (m : OpenMode) (name : String) : Bool :=
  (m.parameter? name).any Answer.isYes

/-- Whether the file is taken for one that nobody changes. -/
def isImmutable (m : OpenMode) : Bool :=
  m.isOn "immutable"

/-- Whether nothing may be written to the file. -/
def isReadOnly (m : OpenMode) : Bool :=
  m.access == .readOnly || m.isImmutable

/-- Whether a directory beside the file keeps others from it. -/
def locksByDirectory (m : OpenMode) : Bool :=
  m.system == "unix-dotfile" && !m.isOn "nolock"

/-- Whether programs that have the file open can share memory. -/
def sharesMemory (m : OpenMode) : Bool :=
  !m.isOn "nolock" && m.system != "unix-none" && m.system != "unix-dotfile"

/-- Whether no other program can have the file open meanwhile, so that nothing is shared. -/
def isExclusive (m : OpenMode) : Bool :=
  m.system == "unix-excl" && m.access != .readOnly

end OpenMode

end SnakeDraft
