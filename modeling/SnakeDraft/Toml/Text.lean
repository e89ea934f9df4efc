import SnakeDraft.Toml.Scanner

/-!
TOML strings. A basic string stands between double quotes and has escapes, a literal string stands
between single quotes and has none; three quotes open a string that may run over several lines. A line
feed after the opening quotes is dropped, and every end of a line in a string is a line feed.
-/

namespace SnakeDraft.Toml

def hexDigit? (c : Char) : Option Nat :=
  if c.isDigit then some (c.toNat - '0'.toNat)
  else if 'a' ≤ c ∧ c ≤ 'f' then some (c.toNat - 'a'.toNat + 10)
  else if 'A' ≤ c ∧ c ≤ 'F' then some (c.toNat - 'A'.toNat + 10)
  else none

/-- A number of hexadecimal digits after those that were read before. -/
def hexDigits (before : Nat) : Nat → Scanner Nat
  | 0, cs => some (before, cs)
  | _ + 1, [] => none
  | n + 1, c :: cs => (hexDigit? c).bind fun d => hexDigits (before * 16 + d) n cs

/-- The character with this code point, if there is one. -/
def scalar? (code : Nat) : Option Char :=
  if code < 0xD800 ∨ (0xE000 ≤ code ∧ code < 0x110000) then some (Char.ofNat code) else none

/-- The character that an escape after its backslash stands for. -/
def escape? : Scanner Char
  | 'b' :: cs => some ('\x08', cs)
  | 't' :: cs => some ('\t', cs)
  | 'n' :: cs => some ('\n', cs)
  | 'f' :: cs => some ('\x0c', cs)
  | 'r' :: cs => some ('\r', cs)
  | '"' :: cs => some ('"', cs)
  | '\\' :: cs => some ('\\', cs)
  | 'u' :: cs => do
    let (code, rest) ← hexDigits 0 4 cs
    (scalar? code).map (·, rest)
  | 'U' :: cs => do
    let (code, rest) ← hexDigits 0 8 cs
    (scalar? code).map (·, rest)
  | _ => none

/-- Puts characters before those that a scanner has read. -/
def prepend (before : List Char) (read : Option (List Char × List Char)) :
    Option (List Char × List Char) :=
  read.map fun (cs, rest) => (before ++ cs, rest)

/-- A basic string after its opening quote; `fuel` bounds its characters. -/
def basicText : Nat → Scanner (List Char)
  | 0, _ => none
  | _ + 1, [] => none
  | fuel + 1, c :: cs =>
    if c = '"' then some ([], cs)
    else if c = '\\' then
      (escape? cs).bind fun (e, rest) => prepend [e] (basicText fuel rest)
    else if isPrintable c then prepend [c] (basicText fuel cs)
    else none

/-- A literal string after its opening quote. -/
def literalText : Scanner (List Char)
  | [] => none
  | c :: cs =>
    if c = '\'' then some ([], cs)
    else if isPrintable c then prepend [c] (literalText cs)
    else none

/-- The quotes at a place in a string of several lines: three close it, and up to two before these
belong to it. -/
inductive Quotes where
  /-- Quotes in the string, and the rest. -/
  | inside (quotes rest : List Char)
  /-- The last quotes of the string, and the rest after the closing ones. -/
  | closing (quotes rest : List Char)

def quotesAt (q : Char) (cs : List Char) : Quotes :=
  let count := (cs.takeWhile (· == q)).length
  if count < 3 then .inside (cs.take count) (cs.drop count)
  else
    let extra := min (count - 3) 2
    .closing (cs.take extra) (cs.drop (extra + 3))

/-- The rest after a line feed or a carriage return with one. -/
def newline? : List Char → Option (List Char)
  | '\n' :: cs => some cs
  | '\r' :: '\n' :: cs => some cs
  | _ => none

/-- The rest after blanks and ends of lines. -/
def skipWhite (cs : List Char) : List Char :=
  match cs with
  | [] => []
  | c :: cs' =>
    if c = ' ' ∨ c = '\t' ∨ c = '\n' then skipWhite cs'
    else if c = '\r' then
      match cs' with
      | '\n' :: cs'' => skipWhite cs''
      | _ => cs
    else cs

/-- The rest after the end of a line that a backslash hides, with all blanks and line ends after
it. -/
def hiddenLineEnd? (cs : List Char) : Option (List Char) :=
  (newline? (skipBlanks cs)).map skipWhite

/-- A string of several lines after its opening quotes, with escapes when `escapes` holds; `fuel`
bounds its characters. -/
def multilineText (q : Char) (escapes : Bool) : Nat → Scanner (List Char)
  | 0, _ => none
  | _ + 1, [] => none
  | fuel + 1, c :: cs =>
    if c = q then
      match quotesAt q (c :: cs) with
      | .closing quotes rest => some (quotes, rest)
      | .inside quotes rest => prepend quotes (multilineText q escapes fuel rest)
    else if escapes ∧ c = '\\' then
      match hiddenLineEnd? cs with
      | some rest => multilineText q escapes fuel rest
      | none => (escape? cs).bind fun (e, rest) => prepend [e] (multilineText q escapes fuel rest)
    else
      match newline? (c :: cs) with
      | some rest => prepend ['\n'] (multilineText q escapes fuel rest)
      | none => if isPrintable c then prepend [c] (multilineText q escapes fuel cs) else none

/-- A string of several lines after its three opening quotes. -/
def multiline? (q : Char) (escapes : Bool) (cs : List Char) : Option (List Char × List Char) :=
  let body := (newline? cs).getD cs
  multilineText q escapes (body.length + 1) body

/-- A string on one line. -/
def lineText? : Scanner String
  | '"' :: cs => (basicText (cs.length + 1) cs).map fun (text, rest) => (String.ofList text, rest)
  | '\'' :: cs => (literalText cs).map fun (text, rest) => (String.ofList text, rest)
  | _ => none

/-- A string of any kind. -/
def text? : Scanner String
  | '"' :: '"' :: '"' :: cs =>
    (multiline? '"' true cs).map fun (text, rest) => (String.ofList text, rest)
  | '\'' :: '\'' :: '\'' :: cs =>
    (multiline? '\'' false cs).map fun (text, rest) => (String.ofList text, rest)
  | cs => lineText? cs

end SnakeDraft.Toml
