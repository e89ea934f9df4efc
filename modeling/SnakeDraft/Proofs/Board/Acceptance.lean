import SnakeDraft.Proofs.Board.Names
import SnakeDraft.Proofs.Decimal.Order

/-!
Which rows make a board. A row is checked after the rows above it, by six checks in a fixed order
(`RowCheck.all`). Rows are a ranking (`Ranking`) when each of them passes all checks, and `Board.addRows_cases`
follows the building row by row: it comes to the players that the rows describe, or it stops at the first row that
fails, with the error of the first check that this row fails.
-/

namespace SnakeDraft

/-- The points that a row writes, if they are a number. -/
def Row.points? (row : Row) : Option Float :=
  Decimal.read? (Text.trim row.points)

/-- The checks of a row, in their order. -/
inductive RowCheck where
  | named
  | unique
  | position
  | number
  | range
  | order
deriving DecidableEq

namespace RowCheck

def all : List RowCheck :=
  [named, unique, position, number, range, order]

/-- What a row is checked for, after the rows above it. -/
def Passes (above : List Row) (row : Row) : RowCheck → Prop
  | named => Text.trim row.name ≠ ""
  | unique => ∀ other ∈ above,
    Text.foldCase (Text.trim other.name) ≠ Text.foldCase (Text.trim row.name)
  | position => ∃ position, Position.parsePlayer? row.position = some position
  | number => ∃ points, row.points? = some points
  | range => ∀ points, row.points? = some points → points.isFinite = true ∧ 0 ≤ points
  | order => ∀ last points previous, above.getLast? = some last → row.points? = some points →
    last.points? = some previous → points ≤ previous

/-- The error that tells of a failed check, with the line of the row. -/
inductive Reports (above : List Row) (row : Row) : RowCheck → BoardError → Prop where
  | named : Reports above row .named (.malformedRow row.line .emptyName)
  | unique : Reports above row .unique (.malformedRow row.line (.duplicateName (Text.trim row.name)))
  | position : Reports above row .position
      (.malformedRow row.line (.unknownPosition (Text.trim row.position) (Text.trim row.name)))
  | number : Reports above row .number
      (.malformedRow row.line (.unreadablePoints (Text.trim row.points) (Text.trim row.name)))
  | range {points : Float} (hpoints : row.points? = some points) :
      Reports above row .range (.malformedRow row.line (.pointsOutOfRange points (Text.trim row.name)))
  | order {last : Row} {points previous : Float} (hlast : above.getLast? = some last)
      (hpoints : row.points? = some points) (hprevious : last.points? = some previous) :
      Reports above row .order (.outOfOrder row.line (Text.trim row.name) points previous)

end RowCheck

namespace Row

/-- A row passes all checks. -/
def Sound (above : List Row) (row : Row) : Prop :=
  ∀ check, RowCheck.Passes above row check

theorem sound_of_order {above : List Row} {row : Row} (hnamed : RowCheck.named.Passes above row)
    (hunique : RowCheck.unique.Passes above row) (hplayed : RowCheck.position.Passes above row)
    (hnumber : RowCheck.number.Passes above row) (hrange : RowCheck.range.Passes above row)
    (horder : RowCheck.order.Passes above row) : row.Sound above := by
  intro check
  cases check with
  | named => exact hnamed
  | unique => exact hunique
  | position => exact hplayed
  | number => exact hnumber
  | range => exact hrange
  | order => exact horder

/-- A row is refused with the error of the first check that it fails. -/
def Refused (above : List Row) (row : Row) (e : BoardError) : Prop :=
  ∃ passed check later, RowCheck.all = passed ++ check :: later ∧
    (∀ earlier ∈ passed, earlier.Passes above row) ∧ ¬ check.Passes above row ∧
      RowCheck.Reports above row check e

theorem Refused.not_sound {above : List Row} {row : Row} {e : BoardError} (h : row.Refused above e) :
    ¬ row.Sound above := by
  obtain ⟨passed, check, later, -, -, hfails, -⟩ := h
  exact fun hsound => hfails (hsound check)

/-- The player whom a row describes, by the place of the row. -/
structure Describes (row : Row) (id : Nat) (player : Player) : Prop where
  name_eq : player.name = Text.trim row.name
  position_eq : Position.parsePlayer? row.position = some player.position
  points_eq : row.points? = some player.points
  rank_eq : player.rank = id + 1

end Row

/-- Rows each of which is sound after the rows above it. -/
def Ranking (rows : List Row) : Prop :=
  ∀ above row below, rows = above ++ row :: below → row.Sound above

namespace Ranking

theorem nil : Ranking [] := by
  intro above row below hrows
  cases above <;> cases hrows

theorem of_append {above below : List Row} (h : Ranking (above ++ below)) : Ranking above := by
  rintro before row after rfl
  apply h before row (after ++ below)
  rw [List.append_assoc, List.cons_append]

theorem concat {above : List Row} {row : Row} (h : Ranking above) (hrow : row.Sound above) :
    Ranking (above ++ [row]) := by
  intro before next after hrows
  -- the row in question is the last one or one of those above it
  rcases List.eq_nil_or_concat after with rfl | ⟨rest, last, rfl⟩
  · obtain ⟨rfl, hlast⟩ := List.append_inj' hrows rfl
    cases hlast
    exact hrow
  · rw [List.concat_eq_append, ← List.cons_append, ← List.append_assoc] at hrows
    obtain ⟨rfl, -⟩ := List.append_inj' hrows rfl
    exact h before next rest rfl

/-- The points of a row of a ranking are a number. -/
theorem isNaN_points {above : List Row} (h : Ranking above) {last : Row} (hlast : above.getLast? = some last)
    {points : Float} (hpoints : last.points? = some points) : points.isNaN = false := by
  obtain ⟨before, rfl⟩ := List.getLast?_eq_some_iff.mp hlast
  exact isNaN_of_isFinite (h before last [] rfl .range points hpoints).1

end Ranking

/-- Players in the order of the rows that describe them. -/
structure Lineup (rows : List Row) (players : Array Player) : Prop where
  size_eq : players.size = rows.length
  describes : ∀ (id : Nat) (row : Row) (player : Player), rows[id]? = some row → players[id]? = some player →
    row.Describes id player

namespace Lineup

variable {above : List Row} {players : Array Player} {row : Row}

theorem empty : Lineup [] #[] where
  size_eq := rfl
  describes := by simp

theorem row_of_player (h : Lineup above players) {id : Nat} {player : Player} (hplayer : players[id]? = some player) :
    ∃ row, above[id]? = some row ∧ row.Describes id player := by
  have hlt : id < above.length := by
    rw [← h.size_eq]
    exact (Array.getElem?_eq_some_iff.mp hplayer).1
  have hrow := List.getElem?_eq_getElem hlt
  exact ⟨above[id], hrow, h.describes id _ player hrow hplayer⟩

theorem player_of_row (h : Lineup above players) {id : Nat} (hrow : above[id]? = some row) :
    ∃ player, players[id]? = some player ∧ row.Describes id player := by
  have hlt : id < players.size := by
    rw [h.size_eq]
    exact (List.getElem?_eq_some_iff.mp hrow).1
  have hplayer := Array.getElem?_eq_getElem hlt
  exact ⟨players[id], hplayer, h.describes id row _ hrow hplayer⟩

theorem push (h : Lineup above players) {player : Player} (hplayer : row.Describes players.size player) :
    Lineup (above ++ [row]) (players.push player) := by
  constructor
  case size_eq => rw [Array.size_push, List.length_append, List.length_singleton, h.size_eq]
  case describes =>
    intro id other found hother hfound
    rw [Array.getElem?_push] at hfound
    split at hfound
    · next hlast =>
      subst hlast
      cases hfound
      rw [h.size_eq, List.getElem?_concat_length] at hother
      cases hother
      exact hplayer
    · obtain ⟨again, hagain, hdescribes⟩ := h.row_of_player hfound
      rw [List.getElem?_append_left (List.getElem?_eq_some_iff.mp hagain).1, hagain] at hother
      cases hother
      exact hdescribes

/-- A name is new for the players when it is new for the rows that describe them. -/
theorem unique_iff (h : Lineup above players) :
    RowCheck.unique.Passes above row ↔
      ¬ (players.any fun p => Text.sameFold p.name (Text.trim row.name)) = true := by
  rw [Array.any_eq_true, not_exists]
  constructor
  · rintro hunique id ⟨hid, hsame⟩
    obtain ⟨other, hother, hdescribes⟩ := h.row_of_player (Array.getElem?_eq_getElem hid)
    rw [hdescribes.name_eq, Text.sameFold_iff] at hsame
    exact hunique other (List.mem_of_getElem? hother) hsame
  · intro hnew other hother hsame
    obtain ⟨id, hid⟩ := List.mem_iff_getElem?.mp hother
    obtain ⟨player, hplayer, hdescribes⟩ := h.player_of_row hid
    obtain ⟨hlt, rfl⟩ := Array.getElem?_eq_some_iff.mp hplayer
    rw [← hdescribes.name_eq] at hsame
    exact hnew id ⟨hlt, Text.sameFold_iff.mpr hsame⟩

/-- The last player has the points of the last row. -/
theorem last_row (h : Lineup above players) {player : Player} (hback : players.back? = some player) :
    ∃ last, above.getLast? = some last ∧ last.points? = some player.points := by
  rw [Array.back?_eq_getElem?] at hback
  obtain ⟨last, hlast, hdescribes⟩ := h.row_of_player hback
  rw [List.getLast?_eq_getElem?, ← h.size_eq]
  exact ⟨last, hlast, hdescribes.points_eq⟩

theorem last_player (h : Lineup above players) {last : Row} (hlast : above.getLast? = some last) :
    ∃ player, players.back? = some player ∧ last.points? = some player.points := by
  rw [List.getLast?_eq_getElem?] at hlast
  obtain ⟨player, hplayer, hdescribes⟩ := h.player_of_row hlast
  rw [Array.back?_eq_getElem?, h.size_eq]
  exact ⟨player, hplayer, hdescribes.points_eq⟩

/-- The points of a row are in order when they are not above those of the last player. -/
theorem order_iff (h : Lineup above players) (habove : Ranking above) {points : Float}
    (hpoints : row.points? = some points) (hfinite : points.isFinite = true) :
    RowCheck.order.Passes above row ↔ ∀ last, players.back? = some last → ¬ last.points < points := by
  have hnumber := isNaN_of_isFinite hfinite
  constructor
  · intro hpasses player hback
    obtain ⟨last, hlast, hprevious⟩ := h.last_row hback
    apply (not_lt_iff_le hnumber (habove.isNaN_points hlast hprevious)).mpr
    exact hpasses last points player.points hlast hpoints hprevious
  · intro hnot last points' previous hlast hpoints' hprevious
    cases hpoints.symm.trans hpoints'
    obtain ⟨player, hback, hprevious'⟩ := h.last_player hlast
    cases hprevious.symm.trans hprevious'
    exact (not_lt_iff_le hnumber (habove.isNaN_points hlast hprevious)).mp (hnot player hback)

end Lineup

variable {above : List Row} {players : Array Player} {row : Row}

/-- A row has a name of its own, or it is refused for its name. -/
theorem Lineup.newName_cases (h : Lineup above players) (row : Row) :
    RowCheck.named.Passes above row ∧ RowCheck.unique.Passes above row ∧
        Board.newName players row = .ok (Text.trim row.name) ∨
      ∃ fault, Board.newName players row = .error fault ∧ row.Refused above (.malformedRow row.line fault) := by
  by_cases hnamed : RowCheck.named.Passes above row
  case neg =>
    right
    refine ⟨.emptyName, ?_, [], .named, _, rfl, by simp, hnamed, .named⟩
    rw [Board.newName, if_pos (not_not.mp hnamed)]
  by_cases hunique : RowCheck.unique.Passes above row
  case neg =>
    right
    refine ⟨.duplicateName (Text.trim row.name), ?_, [.named], .unique, _, rfl, by simpa, hunique, .unique⟩
    rw [Board.newName, if_neg hnamed, if_pos (not_not.mp (mt h.unique_iff.mpr hunique))]
  left
  refine ⟨hnamed, hunique, ?_⟩
  rw [Board.newName, if_neg hnamed, if_neg (h.unique_iff.mp hunique)]

theorem range_passes_iff {points : Float} (hpoints : row.points? = some points) :
    RowCheck.range.Passes above row ↔ points.isFinite = true ∧ ¬ points < 0 := by
  constructor
  · intro hpasses
    obtain ⟨hfinite, hle⟩ := hpasses points hpoints
    exact ⟨hfinite, (not_lt_zero_iff_le hfinite).mpr hle⟩
  · rintro ⟨hfinite, hnot⟩ points' hpoints'
    cases hpoints.symm.trans hpoints'
    exact ⟨hfinite, (not_lt_zero_iff_le hfinite).mp hnot⟩

/-- A row with a name of its own has a position and points, or it is refused for one of them. -/
theorem readRow_cases (hnamed : RowCheck.named.Passes above row) (hunique : RowCheck.unique.Passes above row) :
    (∃ position points, Board.readRow (Text.trim row.name) row = .ok (position, points) ∧
        Position.parsePlayer? row.position = some position ∧ row.points? = some points ∧
        RowCheck.range.Passes above row) ∨
      ∃ fault, Board.readRow (Text.trim row.name) row = .error fault ∧
        row.Refused above (.malformedRow row.line fault) := by
  cases hposition : Position.parsePlayer? row.position with
  | none =>
    right
    refine ⟨.unknownPosition (Text.trim row.position) (Text.trim row.name), ?_, [.named, .unique], .position, _,
      rfl, by simp [hnamed, hunique], ?_, .position⟩
    · rw [Board.readRow, hposition]
    · rintro ⟨position, hsome⟩
      cases hposition.symm.trans hsome
  | some position =>
    have hplayed : RowCheck.position.Passes above row := ⟨position, hposition⟩
    cases hpoints : Decimal.read? (Text.trim row.points) with
    | none =>
      right
      refine ⟨.unreadablePoints (Text.trim row.points) (Text.trim row.name), ?_, [.named, .unique, .position],
        .number, _, rfl, by simp [hnamed, hunique, hplayed], ?_, .number⟩
      · simp only [Board.readRow, hposition, hpoints]
      · rintro ⟨points, hsome⟩
        cases hpoints.symm.trans hsome
    | some points =>
      have hnumber : RowCheck.number.Passes above row := ⟨points, hpoints⟩
      have hrange_iff : RowCheck.range.Passes above row ↔ _ := range_passes_iff hpoints
      by_cases hrange : points.isFinite = true ∧ ¬ points < 0
      · left
        refine ⟨position, points, ?_, rfl, hpoints, hrange_iff.mpr hrange⟩
        simp only [Board.readRow, hposition, hpoints, if_pos hrange]
      · right
        refine ⟨.pointsOutOfRange points (Text.trim row.name), ?_, [.named, .unique, .position, .number],
          .range, _, rfl, by simp [hnamed, hunique, hplayed, hnumber], mt hrange_iff.mp hrange, .range hpoints⟩
        simp only [Board.readRow, hposition, hpoints, if_neg hrange]

/-- A row after the rows of a ranking is sound, and its player comes last, or it is refused. -/
theorem Lineup.addRow_cases (h : Lineup above players) (habove : Ranking above) (row : Row) :
    (row.Sound above ∧ ∃ player, Board.addRow players row = .ok (players.push player) ∧
        row.Describes players.size player) ∨
      ∃ e, Board.addRow players row = .error e ∧ row.Refused above e := by
  rcases h.newName_cases row with ⟨hnamed, hunique, hname⟩ | ⟨fault, hname, hrefused⟩
  case inr =>
    right
    exact ⟨_, by rw [Board.addRow, hname], hrefused⟩
  rcases readRow_cases hnamed hunique with ⟨position, points, hread, hposition, hpoints, hrange⟩ |
    ⟨fault, hread, hrefused⟩
  case inr =>
    right
    exact ⟨_, by simp only [Board.addRow, hname, hread], hrefused⟩
  have hplayed : RowCheck.position.Passes above row := ⟨position, hposition⟩
  have hnumber : RowCheck.number.Passes above row := ⟨points, hpoints⟩
  have hdescribes : row.Describes players.size ⟨Text.trim row.name, position, points, players.size + 1⟩ :=
    ⟨rfl, hposition, hpoints, rfl⟩
  have hsound := Row.sound_of_order hnamed hunique hplayed hnumber hrange
  have horder_iff := h.order_iff habove hpoints (hrange points hpoints).1
  cases hback : players.back? with
  | none =>
    left
    refine ⟨hsound (horder_iff.mpr ?_), _, by simp only [Board.addRow, hname, hread, hback], hdescribes⟩
    simp [hback]
  | some last =>
    by_cases hlt : last.points < points
    · right
      obtain ⟨bottom, hbottom, hprevious⟩ := h.last_row hback
      refine ⟨.outOfOrder row.line (Text.trim row.name) points last.points, ?_,
        [.named, .unique, .position, .number, .range], .order, _, rfl, ?_, ?_, .order hbottom hpoints hprevious⟩
      · simp only [Board.addRow, hname, hread, hback, if_pos hlt]
      · simp [hnamed, hunique, hplayed, hnumber, hrange]
      · exact fun hpasses => horder_iff.mp hpasses last hback hlt
    · left
      refine ⟨hsound (horder_iff.mpr ?_), _, by simp only [Board.addRow, hname, hread, hback, if_neg hlt], hdescribes⟩
      intro last' hlast'
      cases hback.symm.trans hlast'
      exact hlt

/-- Rows after those of a ranking make a longer ranking, whose players are all on the board, or one of them is
refused after others that do. -/
theorem Lineup.addRows_cases (h : Lineup above players) (habove : Ranking above) (rows : List Row) :
    (Ranking (above ++ rows) ∧ ∃ more, Board.addRows players rows = .ok more ∧ Lineup (above ++ rows) more) ∨
      ∃ before row after e, rows = before ++ row :: after ∧ Board.addRows players rows = .error e ∧
        Ranking (above ++ before) ∧ row.Refused (above ++ before) e := by
  induction rows generalizing above players with
  | nil =>
    left
    rw [List.append_nil]
    exact ⟨habove, players, rfl, h⟩
  | cons row rows ih =>
    rcases h.addRow_cases habove row with ⟨hsound, player, hadd, hplayer⟩ | ⟨e, hadd, hrefused⟩
    · have hrest := ih (h.push hplayer) (habove.concat hsound)
      simp only [List.append_assoc, List.singleton_append] at hrest
      rw [Board.addRows, hadd]
      rcases hrest with hall | ⟨before, next, after, e, rfl, hrest, hbefore, hrefused⟩
      · exact .inl hall
      · exact .inr ⟨row :: before, next, after, e, rfl, hrest, hbefore, hrefused⟩
    · right
      refine ⟨[], row, rows, e, rfl, by rw [Board.addRows, hadd], ?_, ?_⟩
      · rwa [List.append_nil]
      · rwa [List.append_nil]

namespace Board

/-- The rows of a ranking make a board of the players whom they describe, and other rows make none. -/
theorem ofRows_cases (rows : List Row) :
    (Ranking rows ∧ ∃ players, ofRows rows = .ok (ofPlayers players) ∧ Lineup rows players) ∨
      ∃ above row below e, rows = above ++ row :: below ∧ ofRows rows = .error e ∧ Ranking above ∧
        row.Refused above e := by
  rcases Lineup.empty.addRows_cases .nil rows with ⟨hrows, players, hadd, hlineup⟩ |
    ⟨above, row, below, e, hsplit, hadd, habove, hrefused⟩
  · exact .inl ⟨hrows, players, by rw [ofRows, hadd]; rfl, hlineup⟩
  · exact .inr ⟨above, row, below, e, hsplit, by rw [ofRows, hadd]; rfl, habove, hrefused⟩

theorem ofRows_ok_iff {rows : List Row} : (∃ b, ofRows rows = .ok b) ↔ Ranking rows := by
  rcases ofRows_cases rows with ⟨hrows, players, hok, -⟩ | ⟨above, row, below, e, hsplit, herror, -, hrefused⟩
  · exact iff_of_true ⟨_, hok⟩ hrows
  · refine iff_of_false ?_ fun hrows => hrefused.not_sound (hrows above row below hsplit)
    rintro ⟨b, hok⟩
    cases herror.symm.trans hok

/-- A board that holds the players of some rows, each under the number of the row. -/
structure Holds (b : Board) (rows : List Row) : Prop where
  players : Lineup rows b.players
  no_flex : ∀ player ∈ b.players, player.position ≠ .flex
  ascending : b.Ordered
  /-- Every id stands in the list of its player's position and in no other. -/
  indexed : b.Indexed
  flex_empty : b.idsByPosition.get .flex = []

theorem holds_of_lineup {rows : List Row} {players : Array Player} (h : Lineup rows players) :
    (ofPlayers players).Holds rows := by
  have hposition : ∀ player ∈ players, player.position ≠ .flex := by
    intro player hplayer
    obtain ⟨id, hid⟩ := Array.mem_iff_getElem?.mp hplayer
    obtain ⟨row, -, hdescribes⟩ := h.row_of_player hid
    exact Position.ne_flex_of_parsePlayer? hdescribes.position_eq
  refine ⟨h, hposition, ordered_ofPlayers players, indexed_ofPlayers players, ?_⟩
  apply List.eq_nil_iff_forall_not_mem.mpr
  intro id hid
  obtain ⟨player, hplayer, hflex⟩ := (indexed_ofPlayers players .flex id).mp hid
  exact hposition player (Array.mem_of_getElem? hplayer) hflex

/-- Building a board accepts exactly the rankings, each of them whole. Of other rows it tells the first one that is
not sound after those above it, by its line and by the first check that it fails. -/
theorem ranking_makes_board (rows : List Row) :
    ((∃ b, ofRows rows = .ok b) ↔ Ranking rows) ∧
    (∀ b, ofRows rows = .ok b → b.Holds rows) ∧
    ∀ e, ofRows rows = .error e → ∃ above row below, rows = above ++ row :: below ∧ row.Refused above e ∧
      ∀ n ≤ above.length, ∃ b, ofRows (rows.take n) = .ok b := by
  refine ⟨ofRows_ok_iff, fun b hok => ?_, fun e herror => ?_⟩
  · rcases ofRows_cases rows with ⟨-, players, hok', hlineup⟩ | ⟨_, _, _, e, -, herror, -⟩
    case inr => cases hok.symm.trans herror
    cases hok.symm.trans hok'
    exact holds_of_lineup hlineup
  · rcases ofRows_cases rows with ⟨-, players, hok, -⟩ | ⟨above, row, below, e', rfl, herror', habove, hrefused⟩
    case inl => cases hok.symm.trans herror
    cases herror.symm.trans herror'
    refine ⟨above, row, below, rfl, hrefused, fun n hn => ofRows_ok_iff.mpr ?_⟩
    rw [List.take_append_of_le_length hn]
    rw [← List.take_append_drop n above] at habove
    exact habove.of_append

end Board

end SnakeDraft
