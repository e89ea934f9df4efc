import SnakeDraft.Machine

/-!
The order of picks. A snake schedule runs through the teams in order in even rounds and backwards in
odd ones; after that a pick changes hands only by a trade, which replaces its owner.
-/

namespace SnakeDraft

/-- One pick of a schedule, before anything is picked. All three numbers count from zero. -/
structure Turn where
  /-- The place in the whole draft. -/
  index : Nat
  team : Nat
  round : Nat
deriving DecidableEq, Repr

/-- The picks of a whole draft in order. -/
structure Schedule where
  numTeams : Nat
  rounds : Nat
  turns : Array Turn
deriving DecidableEq, Repr

namespace Schedule

/-- The team that owns a pick of a snake schedule. -/
def snakeOwner (numTeams index : Nat) : Nat :=
  if index / numTeams % 2 = 0 then index % numTeams else numTeams - 1 - index % numTeams

def snake (numTeams rounds : Nat) : Schedule where
  numTeams := numTeams
  rounds := rounds
  turns := Array.ofFn fun i : Fin (numTeams * rounds) =>
    ⟨i, snakeOwner numTeams i, i / numTeams⟩

/-- The bytes of a turn, three words. -/
def turnBytes : Nat := 24

/-- The snake schedule of a program that takes room for all picks first. Where a program goes on with the lowest
bits of their number, it outgrows every allocation all the same. -/
def build (overflow : Overflow) (numTeams rounds : Nat) : Except MachineFault Schedule := do
  let _ ← overflow.product numTeams rounds
  allocation (numTeams * rounds) turnBytes
  return .snake numTeams rounds

theorem build_eq_ok_iff {overflow : Overflow} {numTeams rounds : Nat} {s : Schedule} :
    build overflow numTeams rounds = .ok s ↔
      numTeams * rounds * turnBytes < signedSize ∧ s = snake numTeams rounds := by
  unfold build
  simp only [bind_eq_ok_iff, allocation_eq_ok_iff]
  constructor
  · rintro ⟨-, -, -, hroom, hsame⟩
    exact ⟨hroom, (Except.ok.inj hsame).symm⟩
  · rintro ⟨hroom, rfl⟩
    have hword : numTeams * rounds < UInt64.size := by
      have hle := signedSize_le
      unfold turnBytes at hroom
      omega
    exact ⟨_, Overflow.product_of_lt hword, (), hroom, rfl⟩

/-- The number of picks. -/
def size (s : Schedule) : Nat :=
  s.turns.size

def isEmpty (s : Schedule) : Bool :=
  s.size == 0

def turn? (s : Schedule) (index : Nat) : Option Turn :=
  s.turns[index]?

/-- Gives a pick to a team: its previous owner and the new schedule, or nothing when there is no such
pick or no such team. -/
def reassign (s : Schedule) (index team : Nat) : Option (Nat × Schedule) :=
  if team < s.numTeams then
    (s.turn? index).map fun turn =>
      (turn.team, { s with turns := s.turns.setIfInBounds index { turn with team } })
  else none

/-- Carries out a list of trades, leaving out those that are out of range. -/
def applyTrades (s : Schedule) (trades : List (Nat × Nat)) : Schedule :=
  trades.foldl (fun s (index, team) => ((s.reassign index team).map (·.2)).getD s) s

@[simp] theorem size_snake (numTeams rounds : Nat) : (snake numTeams rounds).size = numTeams * rounds := by
  simp [snake, size]

theorem size_of_reassign {s t : Schedule} {index team owner : Nat}
    (h : s.reassign index team = some (owner, t)) : t.size = s.size := by
  unfold reassign at h
  split at h
  · obtain ⟨turn, -, h⟩ := Option.map_eq_some_iff.1 h
    cases h
    simp [size]
  · cases h

end Schedule

end SnakeDraft
