import SnakeDraft.Text.Blank
import SnakeDraft.Text.Letters

/-!
Positions and roster slots. Six of the seven slots are positions that a player holds; the seventh,
FLEX, is a slot only and takes running backs, wide receivers and tight ends.
-/

namespace SnakeDraft

/-- A roster slot. Every slot but `flex` is also the position of players. -/
inductive Position where
  | quarterback
  | runningBack
  | wideReceiver
  | tightEnd
  | flex
  | kicker
  | defense
deriving DecidableEq, Repr

namespace Position

/-- Every slot, in display order. -/
def all : List Position :=
  [quarterback, runningBack, wideReceiver, tightEnd, flex, kicker, defense]

theorem mem_all (p : Position) : p ∈ all := by
  cases p <;> decide

/-- The place of a slot in display order. -/
def index : Position → Nat
  | quarterback => 0
  | runningBack => 1
  | wideReceiver => 2
  | tightEnd => 3
  | flex => 4
  | kicker => 5
  | defense => 6

/-- The code a slot is written with. -/
def code : Position → String
  | quarterback => "QB"
  | runningBack => "RB"
  | wideReceiver => "WR"
  | tightEnd => "TE"
  | flex => "FLEX"
  | kicker => "K"
  | defense => "DST"

/-- Whether the slot is no player's position. -/
def isSlotOnly (p : Position) : Bool :=
  p == flex

/-- Whether players at this position may fill a FLEX slot. -/
def isFlexEligible (p : Position) : Bool :=
  p == runningBack || p == wideReceiver || p == tightEnd

/-- The positions whose players may fill a FLEX slot, in display order. -/
def flexEligible : List Position :=
  all.filter isFlexEligible

/-- The characters that a code is made of. -/
def isCodeChar (c : Char) : Bool :=
  c.isAlpha || c == '/'

/-- The slot that a code in capitals names. -/
def ofCode? : String → Option Position
  | "QB" => some quarterback
  | "RB" => some runningBack
  | "WR" => some wideReceiver
  | "TE" => some tightEnd
  | "FLEX" => some flex
  | "K" | "PK" => some kicker
  | "DST" | "D/ST" | "DEF" | "D" => some defense
  | _ => none

/-- The code at the start of a text, in capitals. What follows it, such as a rank, is not read. -/
def codeAtStart (text : String) : String :=
  String.ofList ((Text.capitals (Text.trimList text.toList)).takeWhile isCodeChar)

/-- The slot that a text names in any case of letters, surrounded by blanks or not. -/
def parse? (text : String) : Option Position :=
  ofCode? (codeAtStart text)

/-- The position of a player, which is never FLEX. -/
def parsePlayer? (text : String) : Option Position :=
  (parse? text).filter fun p => !p.isSlotOnly

@[simp] theorem isSlotOnly_iff {p : Position} : p.isSlotOnly = true ↔ p = flex := by
  cases p <;> decide

theorem ne_flex_of_parsePlayer? {text : String} {p : Position} (h : parsePlayer? text = some p) :
    p ≠ flex := by
  obtain ⟨-, h⟩ := Option.filter_eq_some_iff.1 h
  rintro rfl
  simp [isSlotOnly] at h

end Position

end SnakeDraft
