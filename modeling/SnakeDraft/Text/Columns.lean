/-!
Columns of text. A column is as wide as its characters are many, and a text that is wider than its
column is written in full.
-/

namespace SnakeDraft.Text

/-- Blanks before the text, up to the width of its column. -/
def alignRight (width : Nat) (text : String) : String :=
  "".pushn ' ' (width - text.length) ++ text

/-- Blanks after the text, up to the width of its column. -/
def alignLeft (width : Nat) (text : String) : String :=
  text.pushn ' ' (width - text.length)

end SnakeDraft.Text
