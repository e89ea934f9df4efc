/-!
Scanning TOML text. A scanner reads something at the start of a text and gives it with the rest, or
gives nothing when it is not there. This module holds the blanks, comments and ends of lines between
the parts of a document.
-/

namespace SnakeDraft.Toml

/-- Reads at the start of a text. -/
abbrev Scanner (α : Type) := List Char → Option (α × List Char)

/-- The rest after blanks within a line. -/
def skipBlanks (cs : List Char) : List Char :=
  cs.dropWhile fun c => c == ' ' || c == '\t'

/-- Whether a character may stand in a comment or, apart from quotes and backslashes, in a string:
control characters other than the tab may not. -/
def isPrintable (c : Char) : Bool :=
  c == '\t' || (0x20 ≤ c.toNat && c != '\x7f')

/-- The rest after a comment, which runs to the end of the line. -/
def skipComment : List Char → List Char
  | '#' :: cs => cs.dropWhile isPrintable
  | cs => cs

/-- The rest after the end of a line, or the end of the text. -/
def lineEnd? : List Char → Option (List Char)
  | [] => some []
  | '\n' :: cs => some cs
  | '\r' :: '\n' :: cs => some cs
  | _ => none

/-- The rest after blanks, a comment and the end of the line. -/
def finishLine? (cs : List Char) : Option (List Char) :=
  lineEnd? (skipComment (skipBlanks cs))

/-- The rest after blanks, comments and ends of lines; `fuel` bounds the lines. -/
def skipLines : Nat → List Char → List Char
  | 0, cs => cs
  | fuel + 1, cs =>
    match skipBlanks cs with
    | [] => []
    | rest =>
      match finishLine? rest with
      | some next => skipLines fuel next
      | none => skipComment rest

/-- The rest after everything that may stand between the values of an array. -/
def skipSpace (cs : List Char) : List Char :=
  skipLines cs.length cs

/-- The rest after a given text. -/
def expect? : List Char → List Char → Option (List Char)
  | [], cs => some cs
  | _ :: _, [] => none
  | e :: es, c :: cs => if e = c then expect? es cs else none

end SnakeDraft.Toml
