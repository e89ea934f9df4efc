/-!
JSON strings. `Json.quote` writes a text as a string, with escapes for quotes, backslashes and control
characters only; `Json.unquote?` reads any string that JSON allows.
-/

namespace SnakeDraft.Json

/-- The two lower-case hexadecimal digits of a number below 256. -/
def hexPair (n : Nat) : List Char :=
  [Nat.digitChar (n / 16), Nat.digitChar (n % 16)]

/-- The written form of a character in a string. -/
def escape (c : Char) : List Char :=
  if c = '"' then ['\\', '"']
  else if c = '\\' then ['\\', '\\']
  else if c = '\n' then ['\\', 'n']
  else if c = '\r' then ['\\', 'r']
  else if c = '\t' then ['\\', 't']
  else if c = '\x08' then ['\\', 'b']
  else if c = '\x0c' then ['\\', 'f']
  else if c.toNat < 0x20 then '\\' :: 'u' :: '0' :: '0' :: hexPair c.toNat
  else [c]

def quote (text : String) : String :=
  String.ofList ('"' :: text.toList.flatMap escape ++ ['"'])

/-- The value of a hexadecimal digit. -/
def hexValue? (c : Char) : Option Nat :=
  if c.isDigit then some (c.toNat - '0'.toNat)
  else if 'a' ≤ c ∧ c ≤ 'f' then some (c.toNat - 'a'.toNat + 10)
  else if 'A' ≤ c ∧ c ≤ 'F' then some (c.toNat - 'A'.toNat + 10)
  else none

/-- A number of four hexadecimal digits, and the rest. -/
def fourDigits? : List Char → Option (Nat × List Char)
  | a :: b :: c :: d :: rest => do
    let a ← hexValue? a
    let b ← hexValue? b
    let c ← hexValue? c
    let d ← hexValue? d
    some (((a * 16 + b) * 16 + c) * 16 + d, rest)
  | _ => none

/-- The character of a numeric escape after its letter. A character beyond the first plane takes two
escapes, and half of such a pair stands for nothing. -/
def numericEscape? (cs : List Char) : Option (Char × List Char) := do
  let (code, rest) ← fourDigits? cs
  if code < 0xD800 ∨ 0xE000 ≤ code then some (Char.ofNat code, rest)
  else if 0xDC00 ≤ code then none
  else
    match rest with
    | '\\' :: 'u' :: rest => do
      let (low, rest) ← fourDigits? rest
      if 0xDC00 ≤ low ∧ low < 0xE000 then
        some (Char.ofNat (0x10000 + (code - 0xD800) * 0x400 + (low - 0xDC00)), rest)
      else none
    | _ => none

/-- The character of an escape after its backslash. -/
def unescape? : List Char → Option (Char × List Char)
  | '"' :: cs => some ('"', cs)
  | '\\' :: cs => some ('\\', cs)
  | '/' :: cs => some ('/', cs)
  | 'b' :: cs => some ('\x08', cs)
  | 'f' :: cs => some ('\x0c', cs)
  | 'n' :: cs => some ('\n', cs)
  | 'r' :: cs => some ('\r', cs)
  | 't' :: cs => some ('\t', cs)
  | 'u' :: cs => numericEscape? cs
  | _ => none

/-- A string after its opening quote, and the rest; `fuel` bounds its characters. -/
def unquoted : Nat → List Char → Option (List Char × List Char)
  | 0, _ => none
  | _ + 1, [] => none
  | fuel + 1, c :: cs =>
    if c = '"' then some ([], cs)
    else if c = '\\' then do
      let (e, rest) ← unescape? cs
      let (text, rest) ← unquoted fuel rest
      some (e :: text, rest)
    else if c.toNat < 0x20 then none
    else do
      let (text, rest) ← unquoted fuel cs
      some (c :: text, rest)

/-- Whether a character may surround a JSON value. -/
def isSpace (c : Char) : Bool :=
  c == ' ' || c == '\t' || c == '\n' || c == '\r'

/-- The text of a JSON document that is a string. -/
def unquote? (document : String) : Option String :=
  match document.toList.dropWhile isSpace with
  | '"' :: cs =>
    match unquoted (cs.length + 1) cs with
    | some (text, rest) => if rest.all isSpace then some (String.ofList text) else none
    | none => none
  | _ => none

end SnakeDraft.Json
