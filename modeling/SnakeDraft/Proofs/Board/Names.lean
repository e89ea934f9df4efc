import Mathlib.Data.List.DropRight
import SnakeDraft.Proofs.Board.Availability

/-!
Names on a board. A board built from rows holds trimmed names, no two of which are the same up to case
(`Board.Named`), so every player is found again under the own name (`Board.Named.find?_name`).
-/

namespace SnakeDraft

namespace Text

theorem trimList_trimList (cs : List Char) : trimList (trimList cs) = trimList cs := by
  have htrim : ∀ ds, trimList ds = (ds.dropWhile isBlank).rdropWhile isBlank := fun _ => rfl
  have hfront : (trimList cs).dropWhile isBlank = trimList cs := by
    rw [List.dropWhile_eq_self_iff, htrim]
    intro hlt
    have hstart := List.rdropWhile_prefix isBlank (cs.dropWhile isBlank)
    rw [hstart.getElem hlt]
    have hidem := List.dropWhile_idempotent isBlank cs
    exact (List.dropWhile_eq_self_iff.mp hidem) (Nat.lt_of_lt_of_le hlt hstart.length_le)
  rw [htrim (trimList cs), hfront, htrim, List.rdropWhile_idempotent]

@[simp] theorem trim_trim (text : String) : trim (trim text) = trim text := by
  unfold trim
  rw [String.toList_ofList, trimList_trimList]

theorem sameFold_self (text : String) : sameFold text text = true := by
  simp [sameFold]

theorem sameFold_comm (a b : String) : sameFold a b = sameFold b a := by
  unfold sameFold
  exact Bool.beq_comm

theorem sameFold_iff {a b : String} : sameFold a b = true ↔ foldCase a = foldCase b :=
  beq_iff_eq

end Text

/-- The names of some players are trimmed, and no two are the same up to case. -/
structure DistinctNames (players : Array Player) : Prop where
  trimmed : ∀ player ∈ players, Text.trim player.name = player.name
  distinct : ∀ i j (hi : i < players.size) (hj : j < players.size),
    Text.sameFold players[i].name players[j].name = true → i = j

namespace DistinctNames

theorem empty : DistinctNames #[] :=
  ⟨by simp, fun i _ hi => absurd hi (Nat.not_lt_zero i)⟩

theorem push {players : Array Player} {player : Player} (h : DistinctNames players)
    (htrimmed : Text.trim player.name = player.name)
    (hnew : ∀ other ∈ players, Text.sameFold other.name player.name = false) :
    DistinctNames (players.push player) := by
  constructor
  case trimmed =>
    intro other hother
    rcases Array.mem_push.mp hother with hold | rfl
    · exact h.trimmed other hold
    · exact htrimmed
  case distinct =>
    intro i j hi hj hsame
    rw [Array.size_push] at hi hj
    rw [Array.getElem_push, Array.getElem_push] at hsame
    split at hsame
    · next hi' =>
      split at hsame
      · next hj' => exact h.distinct i j hi' hj' hsame
      · cases (hnew _ (Array.getElem_mem hi')).symm.trans hsame
    · split at hsame
      · next hj' =>
        rw [Text.sameFold_comm] at hsame
        cases (hnew _ (Array.getElem_mem hj')).symm.trans hsame
      · omega

end DistinctNames

namespace Board

theorem newName_eq_ok {players : Array Player} {row : Row} {name : String}
    (h : newName players row = .ok name) :
    Text.trim name = name ∧ ∀ other ∈ players, Text.sameFold other.name name = false := by
  unfold newName at h
  simp only at h
  split at h
  · cases h
  · split at h
    · cases h
    · next hnew =>
      cases h
      refine ⟨Text.trim_trim row.name, fun other hother => ?_⟩
      obtain ⟨i, hi, rfl⟩ := Array.mem_iff_getElem.mp hother
      have hall : ∀ i (hi : i < players.size),
          Text.sameFold players[i].name (Text.trim row.name) = false := by
        simpa using hnew
      exact hall i hi

theorem addRow_eq_ok {players more : Array Player} {row : Row} (h : addRow players row = .ok more) :
    ∃ player, newName players row = .ok player.name ∧ more = players.push player := by
  unfold addRow at h
  cases hname : newName players row with
  | error fault => simp [hname] at h
  | ok name =>
    cases hread : readRow name row with
    | error fault => simp [hname, hread] at h
    | ok found =>
      simp only [hname, hread] at h
      split at h
      · split at h
        · cases h
        · cases h
          exact ⟨_, rfl, rfl⟩
      · cases h
        exact ⟨_, rfl, rfl⟩

theorem distinctNames_addRows {players more : Array Player} {rows : List Row}
    (hplayers : DistinctNames players) (h : addRows players rows = .ok more) :
    DistinctNames more := by
  induction rows generalizing players with
  | nil =>
    cases h
    exact hplayers
  | cons row rows ih =>
    unfold addRows at h
    split at h
    · cases h
    · next next hnext =>
      obtain ⟨player, hname, rfl⟩ := addRow_eq_ok hnext
      obtain ⟨htrimmed, hnew⟩ := newName_eq_ok hname
      exact ih (hplayers.push htrimmed hnew) h

/-- The names on a board built from rows are distinct. -/
theorem distinctNames_of_ofRows {rows : List Row} {b : Board} (h : ofRows rows = .ok b) :
    DistinctNames b.players := by
  obtain ⟨players, hplayers, rfl⟩ := eq_ofPlayers_of_ofRows h
  exact distinctNames_addRows .empty hplayers

/-- A player is found under every spelling of the name. -/
theorem find?_of_sameFold {b : Board} (hb : DistinctNames b.players) {id : Nat} {player : Player}
    (hplayer : b.player? id = some player) {name : String}
    (hname : Text.sameFold player.name (Text.trim name) = true) : b.find? name = some id := by
  obtain ⟨hlt, rfl⟩ := Array.getElem?_eq_some_iff.mp hplayer
  unfold find?
  rw [Array.findIdx?_eq_some_iff_getElem]
  refine ⟨hlt, hname, fun j hj => ?_⟩
  intro hsame
  have hboth : Text.sameFold b.players[j].name b.players[id].name = true :=
    Text.sameFold_iff.mpr ((Text.sameFold_iff.mp hsame).trans (Text.sameFold_iff.mp hname).symm)
  exact Nat.ne_of_lt hj (hb.distinct j id (Nat.lt_trans hj hlt) hlt hboth)

theorem find?_name {b : Board} (hb : DistinctNames b.players) {id : Nat} {player : Player}
    (hplayer : b.player? id = some player) : b.find? player.name = some id := by
  apply find?_of_sameFold hb hplayer
  obtain ⟨hlt, rfl⟩ := Array.getElem?_eq_some_iff.mp hplayer
  rw [hb.trimmed _ (Array.getElem_mem hlt)]
  exact Text.sameFold_self _

/-- Who is found has the name that was looked for, up to case. -/
theorem player_of_find? {b : Board} {name : String} {id : Nat} (h : b.find? name = some id) :
    ∃ player, b.player? id = some player ∧ Text.sameFold player.name (Text.trim name) = true := by
  obtain ⟨hlt, hname, -⟩ := Array.findIdx?_eq_some_iff_getElem.mp h
  exact ⟨b.players[id], Array.getElem?_eq_getElem hlt, hname⟩

end Board

end SnakeDraft
