import SnakeDraft.Decimal.Format
import SnakeDraft.Json.Text

/-!
JSON documents in their written form: two blanks of indentation per level, one item or field per line,
and nothing between the brackets of an empty list.
-/

namespace SnakeDraft.Json

/-- A JSON value. The fields of a record are written in the order given. -/
inductive Document where
  | null
  | text (s : String)
  | whole (n : Nat)
  | number (x : Float)
  | list (items : List Document)
  | record (fields : List (String × Document))

/-- The start of a line at a level of nesting. -/
def newLine (level : Nat) : String :=
  "".pushn ' ' (2 * level) |> ("\n" ++ ·)

/-- Written items between brackets, each on a line of its own. -/
def bracket (level : Nat) (opening closing : String) (items : List String) : String :=
  if items.isEmpty then opening ++ closing
  else
    let separator := "," ++ newLine (level + 1)
    opening ++ newLine (level + 1) ++ separator.intercalate items ++ newLine level ++ closing

mutual

/-- The written form of a value at a level of nesting. -/
def Document.render (level : Nat) : Document → String
  | .null => "null"
  | .text s => quote s
  | .whole n => toString n
  | .number x => Decimal.ofJson x
  | .list items => bracket level "[" "]" (renderItems (level + 1) items)
  | .record fields => bracket level "\x7b" "\x7d" (renderFields (level + 1) fields)

/-- The written forms of the items of a list. -/
def renderItems (level : Nat) : List Document → List String
  | [] => []
  | item :: items => item.render level :: renderItems level items

/-- The written forms of the fields of a record. -/
def renderFields (level : Nat) : List (String × Document) → List String
  | [] => []
  | (name, value) :: fields =>
    (quote name ++ ": " ++ value.render level) :: renderFields level fields

end

/-- The absence of a value as `null`. -/
def Document.ofOption {α : Type} (f : α → Document) : Option α → Document
  | some a => f a
  | none => .null

end SnakeDraft.Json
