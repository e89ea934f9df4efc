import Mathlib
import SnakeDraft.Config.Roster
import SnakeDraft.Proofs.Sorting

/-!
Reading a roster from a table. A table has no order: its entries come in any order, and so do the counts by position
that are read from them. Reading sorts the keys first, and what it gives is the same for all these orders
(`Config.roster_read_in_any_order`): the requirements of the whole table, or the fault of the least key at fault.
-/

namespace SnakeDraft

namespace Requirements

theorem ext_required {r r' : Requirements} (h : ∀ slot, r.required slot = r'.required slot) : r = r' := by
  obtain ⟨counts⟩ := r
  obtain ⟨counts'⟩ := r'
  have hcounts : counts = counts' := SlotTable.ext_get fun slot => UInt8.toNat_inj.mp (h slot)
  rw [hcounts]

variable {counts : List (Position × UInt8)} {slot : Position}

theorem required_foldl_of_not_mem (r : Requirements) (h : slot ∉ counts.map (·.1)) :
    (counts.foldl (fun r (slot, count) => r.set slot count) r).required slot = r.required slot := by
  induction counts generalizing r with
  | nil => rfl
  | cons first counts ih =>
    rw [List.map_cons, List.mem_cons, not_or] at h
    rw [List.foldl_cons, ih _ h.2, required_set, if_neg h.1]

theorem required_foldl_of_mem (r : Requirements) (hdistinct : (counts.map (·.1)).Nodup) {count : UInt8}
    (h : (slot, count) ∈ counts) :
    (counts.foldl (fun r (slot, count) => r.set slot count) r).required slot = count.toNat := by
  induction counts generalizing r with
  | nil => cases h
  | cons first counts ih =>
    rw [List.map_cons, List.nodup_cons] at hdistinct
    rw [List.foldl_cons]
    rcases List.mem_cons.mp h with rfl | hlater
    · rw [required_foldl_of_not_mem _ hdistinct.1, required_set, if_pos rfl]
    · exact ih _ hdistinct.2 hlater

theorem required_ofCounts_of_not_mem (h : slot ∉ counts.map (·.1)) : (ofCounts counts).required slot = 0 := by
  rw [ofCounts, required_foldl_of_not_mem _ h, required_none]

theorem required_ofCounts_of_mem (hdistinct : (counts.map (·.1)).Nodup) {count : UInt8}
    (h : (slot, count) ∈ counts) : (ofCounts counts).required slot = count.toNat :=
  required_foldl_of_mem _ hdistinct h

/-- Counts of distinct slots make the same requirements in any order. -/
theorem ofCounts_perm {order : List (Position × UInt8)} (hdistinct : (counts.map (·.1)).Nodup)
    (hperm : order.Perm counts) : ofCounts order = ofCounts counts := by
  have hpositions := hperm.map (·.1)
  apply ext_required
  intro slot
  by_cases hslot : slot ∈ counts.map (·.1)
  · obtain ⟨⟨listed, count⟩, hmem, rfl⟩ := List.mem_map.mp hslot
    rw [required_ofCounts_of_mem hdistinct hmem,
      required_ofCounts_of_mem (hpositions.nodup_iff.mpr hdistinct) (hperm.mem_iff.mpr hmem)]
  · rw [required_ofCounts_of_not_mem hslot, required_ofCounts_of_not_mem (mt hpositions.mem_iff.mp hslot)]

end Requirements

namespace Config

/-- What reading a table can give: the order of its entries and of the counts read from them is anyone's guess. -/
def ReadsRoster (table : List (String × Nat)) (result : Except ConfigFault Requirements) : Prop :=
  ∃ listed, listed.Perm table ∧
    match readCounts [] (sortByKey listed) with
    | .error fault => result = .error fault
    | .ok counts => ∃ order, order.Perm counts ∧ result = .ok (.ofCounts order)

/-- A table of positions, each named once, with counts that fit. -/
structure SoundRoster (table : List (String × Nat)) : Prop where
  named : ∀ entry ∈ table, ∃ position, Position.parse? entry.1 = some position
  bounded : ∀ entry ∈ table, entry.2 ≤ 255
  distinct : ∀ entry ∈ table, ∀ other ∈ table, Position.parse? entry.1 = Position.parse? other.1 → entry.1 = other.1

/-- What is wrong with a key of a table: the first of three checks that it fails. -/
inductive FaultyKey (table : List (String × Nat)) (key : String) (count : Nat) : String → Prop where
  | unknown (unnamed : Position.parse? key = none) : FaultyKey table key count s!"unknown position '{key}'"
  | tooMany {position : Position} (named : Position.parse? key = some position) (beyond : 255 < count) :
      FaultyKey table key count "at most 255 slots per position"
  | repeated {position : Position} {other : String × Nat} (named : Position.parse? key = some position)
      (bounded : count ≤ 255) (mem : other ∈ table) (smaller : other.1 < key)
      (same : Position.parse? other.1 = some position) :
      FaultyKey table key count s!"{position.code} is listed more than once"

/-- The counts read from some entries. -/
structure CountsOf (entries : List (String × Nat)) (counts : List (Position × UInt8)) : Prop where
  entries_eq : entries.map (fun entry => (Position.parse? entry.1, entry.2)) =
    counts.map fun count => (some count.1, count.2.toNat)
  distinct : (counts.map (·.1)).Nodup

section Reading

variable {table entries done rest : List (String × Nat)} {counts : List (Position × UInt8)} {key : String} {count : Nat}
  {message : String}

namespace CountsOf

theorem nil : CountsOf [] [] := ⟨rfl, List.nodup_nil⟩

theorem positions_eq (h : CountsOf entries counts) :
    entries.map (fun entry => Position.parse? entry.1) = (counts.map (·.1)).map some := by
  have hpositions := congrArg (List.map (·.1)) h.entries_eq
  simpa only [List.map_map, Function.comp_def] using hpositions

theorem exists_count (h : CountsOf entries counts) {entry : String × Nat} (hentry : entry ∈ entries) :
    ∃ count ∈ counts, Position.parse? entry.1 = some count.1 ∧ entry.2 = count.2.toNat := by
  have hmem : (Position.parse? entry.1, entry.2) ∈ counts.map fun count => (some count.1, count.2.toNat) := by
    rw [← h.entries_eq]
    exact List.mem_map_of_mem hentry
  obtain ⟨count, hcount, heq⟩ := List.mem_map.mp hmem
  obtain ⟨hposition, hvalue⟩ := Prod.mk.inj heq
  exact ⟨count, hcount, hposition.symm, hvalue.symm⟩

theorem mem_positions_iff (h : CountsOf entries counts) {position : Position} :
    position ∈ counts.map (·.1) ↔ ∃ entry ∈ entries, Position.parse? entry.1 = some position := by
  have hsome : position ∈ counts.map (·.1) ↔ some position ∈ (counts.map (·.1)).map some := by simp
  rw [hsome, ← h.positions_eq, List.mem_map]

theorem sound (h : CountsOf entries counts) : SoundRoster entries := by
  constructor
  case named =>
    intro entry hentry
    obtain ⟨count, -, hposition, -⟩ := h.exists_count hentry
    exact ⟨count.1, hposition⟩
  case bounded =>
    intro entry hentry
    obtain ⟨count, -, -, hvalue⟩ := h.exists_count hentry
    have hlt := count.2.toNat_lt
    omega
  case distinct =>
    intro entry hentry other hother hsame
    have hnodup : (entries.map fun entry => Position.parse? entry.1).Nodup := by
      rw [h.positions_eq]
      exact h.distinct.map fun _ _ => Option.some.inj
    rw [List.inj_on_of_nodup_map hnodup hentry hother hsame]

theorem required_eq (h : CountsOf entries counts) {entry : String × Nat} (hentry : entry ∈ entries)
    {position : Position} (hposition : Position.parse? entry.1 = some position) :
    (Requirements.ofCounts counts).required position = entry.2 := by
  obtain ⟨⟨counted, count⟩, hcount, hcounted, hvalue⟩ := h.exists_count hentry
  cases hposition.symm.trans hcounted
  rw [hvalue]
  exact Requirements.required_ofCounts_of_mem h.distinct hcount

theorem concat (h : CountsOf entries counts) {position : Position} (hposition : Position.parse? key = some position)
    (hbounded : count ≤ 255) (hnew : position ∉ counts.map (·.1)) :
    CountsOf (entries ++ [(key, count)]) (counts ++ [(position, count.toUInt8)]) := by
  constructor
  · have hvalue : count.toUInt8.toNat = count := by
      rw [UInt8.toNat_ofNat']
      omega
    simp only [List.map_append, List.map_cons, List.map_nil, h.entries_eq, hposition, hvalue]
  · rw [List.map_append, List.map_cons, List.map_nil, ← List.concat_eq_append]
    exact h.distinct.concat hnew

end CountsOf

theorem FaultyKey.not_sound (h : FaultyKey table key count message) (hmem : (key, count) ∈ table) :
    ¬ SoundRoster table := by
  intro hsound
  cases h with
  | unknown hunnamed =>
    obtain ⟨position, hposition⟩ := hsound.named _ hmem
    cases hunnamed.symm.trans hposition
  | tooMany _ hbeyond =>
    have hbounded := hsound.bounded _ hmem
    omega
  | repeated hnamed _ hother hsmaller hsame =>
    have hkey := hsound.distinct _ hother _ hmem (hsame.trans hnamed.symm)
    rw [hkey] at hsmaller
    exact String.lt_irrefl _ hsmaller

/-- Whether a key is at fault depends on the smaller keys only. -/
theorem FaultyKey.of_smaller (h : FaultyKey table key count message)
    (hsmaller : ∀ other ∈ table, other.1 < key → other ∈ entries) : FaultyKey entries key count message := by
  cases h with
  | unknown hunnamed => exact .unknown hunnamed
  | tooMany hnamed hbeyond => exact .tooMany hnamed hbeyond
  | repeated hnamed hbounded hother hlt hsame => exact .repeated hnamed hbounded (hsmaller _ hother hlt) hlt hsame

/-- In a table that is read in the order of its keys, the smaller keys are those that were read before. -/
theorem mem_before_iff (hkeys : (table.map (·.1)).Nodup) (hsplit : sortByKey table = done ++ (key, count) :: rest)
    {entry : String × Nat} : entry ∈ done ↔ entry ∈ table ∧ entry.1 < key := by
  have hsorted := pairwise_sortByKey hkeys
  rw [hsplit, List.pairwise_append, List.pairwise_cons] at hsorted
  obtain ⟨-, ⟨hlater, -⟩, hbefore⟩ := hsorted
  rw [← (perm_sortByKey table).mem_iff, hsplit, List.mem_append]
  constructor
  · intro hdone
    exact ⟨.inl hdone, hbefore entry hdone _ List.mem_cons_self⟩
  · rintro ⟨hdone | hrest, hsmaller⟩
    · exact hdone
    · rcases List.mem_cons.mp hrest with rfl | hrest
      · exact absurd hsmaller (String.lt_irrefl _)
      · exact absurd (String.lt_trans hsmaller (hlater entry hrest)) (String.lt_irrefl _)

/-- One more key is read, or it is at fault and is told so. -/
theorem readCount_cases (hkeys : (table.map (·.1)).Nodup)
    (hsplit : sortByKey table = done ++ (key, count) :: rest) (h : CountsOf done counts) :
    (∃ entry, readCount counts key count = .ok entry ∧ CountsOf (done ++ [(key, count)]) (counts ++ [entry])) ∨
      ∃ fault, readCount counts key count = .error fault ∧
        FaultyKey table key count (ConfigFault.roster key fault).detail := by
  cases hposition : Position.parse? key with
  | none =>
    refine .inr ⟨.unknownPosition, by simp only [readCount, hposition], ?_⟩
    exact .unknown hposition
  | some position =>
    by_cases hbeyond : 255 < count
    · refine .inr ⟨.tooManySlots, by simp only [readCount, hposition, if_pos hbeyond], ?_⟩
      exact .tooMany hposition hbeyond
    · have hbounded : count ≤ 255 := Nat.le_of_not_lt hbeyond
      have hany : counts.any (fun c => c.1 == position) = true ↔ position ∈ counts.map (·.1) := by simp
      by_cases hread : position ∈ counts.map (·.1)
      · obtain ⟨other, hother, hsame⟩ := h.mem_positions_iff.mp hread
        obtain ⟨hmem, hsmaller⟩ := (mem_before_iff hkeys hsplit).mp hother
        refine .inr ⟨.repeated position, ?_, ?_⟩
        · simp only [readCount, hposition, if_neg hbeyond, if_pos (hany.mpr hread)]
        · exact .repeated hposition hbounded hmem hsmaller hsame
      · refine .inl ⟨(position, count.toUInt8), ?_, h.concat hposition hbounded hread⟩
        simp only [readCount, hposition, if_neg hbeyond, if_neg (mt hany.mp hread)]

/-- Reading the rest of a table, after some of its keys were read without a fault. -/
theorem readCounts_cases (hkeys : (table.map (·.1)).Nodup) (hsplit : sortByKey table = done ++ rest)
    (h : CountsOf done counts) :
    (∃ all, readCounts counts rest = .ok all ∧ CountsOf (sortByKey table) all) ∨
      ∃ above key count below fault, sortByKey table = above ++ (key, count) :: below ∧ SoundRoster above ∧
        readCounts counts rest = .error (.roster key fault) ∧
        FaultyKey table key count (ConfigFault.roster key fault).detail := by
  -- what was read so far is sound, so that the first fault met is that of the least key at fault
  induction rest generalizing done counts with
  | nil =>
    rw [List.append_nil] at hsplit
    exact .inl ⟨counts, rfl, hsplit ▸ h⟩
  | cons first rest ih =>
    obtain ⟨key, count⟩ := first
    rcases readCount_cases hkeys hsplit h with ⟨entry, hread, hcounts⟩ | ⟨fault, hread, hfaulty⟩
    · rw [readCounts, hread]
      apply ih _ hcounts
      rw [hsplit, List.append_assoc, List.singleton_append]
    · exact .inr ⟨done, key, count, rest, fault, hsplit, h.sound, by rw [readCounts, hread], hfaulty⟩

/-- The least key of a table at fault, with what is wrong with it. -/
structure FirstFault (table : List (String × Nat)) (key message : String) : Prop where
  faulty : ∃ count, (key, count) ∈ table ∧ FaultyKey table key count message
  least : ∀ entry ∈ table, entry.1 < key → ∀ other, ¬ FaultyKey table entry.1 entry.2 other

theorem requirementsOf_cases (hkeys : (table.map (·.1)).Nodup) :
    (∃ counts, readCounts [] (sortByKey table) = .ok counts ∧ CountsOf (sortByKey table) counts) ∨
      ∃ key fault, readCounts [] (sortByKey table) = .error (.roster key fault) ∧
        FirstFault table key (ConfigFault.roster key fault).detail := by
  rcases readCounts_cases hkeys (List.nil_append _).symm .nil with hread |
    ⟨above, key, count, below, fault, hsplit, hsound, hread, hfaulty⟩
  · exact .inl hread
  · refine .inr ⟨key, fault, hread, ⟨count, ?_, hfaulty⟩, ?_⟩
    · rw [← (perm_sortByKey table).mem_iff, hsplit]
      exact List.mem_append_right _ List.mem_cons_self
    · intro entry hentry hsmaller other hother
      have habove := (mem_before_iff hkeys hsplit).mpr ⟨hentry, hsmaller⟩
      refine (hother.of_smaller fun smallest hsmallest hlt => ?_).not_sound habove hsound
      exact (mem_before_iff hkeys hsplit).mpr ⟨hsmallest, String.lt_trans hlt hsmaller⟩

theorem sound_perm (hperm : entries.Perm table) (h : SoundRoster entries) : SoundRoster table where
  named entry hentry := h.named entry (hperm.mem_iff.mpr hentry)
  bounded entry hentry := h.bounded entry (hperm.mem_iff.mpr hentry)
  distinct entry hentry other hother := h.distinct entry (hperm.mem_iff.mpr hentry) other (hperm.mem_iff.mpr hother)

theorem readsRoster_iff (hkeys : (table.map (·.1)).Nodup) {result : Except ConfigFault Requirements} :
    ReadsRoster table result ↔ result = requirementsOf table := by
  have hresult : requirementsOf table = (readCounts [] (sortByKey table)).map .ofCounts := rfl
  constructor
  · rintro ⟨listed, hlisted, hread⟩
    rw [sortByKey_perm hkeys hlisted] at hread
    rcases requirementsOf_cases hkeys with ⟨counts, hcounts, hof⟩ | ⟨key, fault, herror, -⟩
    · rw [hcounts] at hread hresult
      obtain ⟨order, horder, rfl⟩ := hread
      rw [hresult, Requirements.ofCounts_perm hof.distinct horder]
      rfl
    · rw [herror] at hread hresult
      rw [hresult]
      exact hread
  · rintro rfl
    refine ⟨table, .refl table, ?_⟩
    rw [hresult]
    split
    · next fault herror => rw [herror]; rfl
    · next counts hcounts => exact ⟨counts, .refl counts, by rw [hcounts]; rfl⟩

/-- What reading a roster gives. -/
structure RosterRead (table : List (String × Nat)) : Prop where
  ok_iff : (∃ r, requirementsOf table = .ok r) ↔ SoundRoster table
  required_of_key : ∀ r, requirementsOf table = .ok r → ∀ key count position, (key, count) ∈ table →
    Position.parse? key = some position → r.required position = count
  required_of_none : ∀ r, requirementsOf table = .ok r → ∀ position,
    (∀ entry ∈ table, Position.parse? entry.1 ≠ some position) → r.required position = 0
  first_fault : ∀ fault, requirementsOf table = .error fault →
    ∃ key, fault.field = "draft.roster." ++ key ∧ FirstFault table key fault.detail

end Reading

/-- Reading a roster gives the same for every order of the table and of the counts. It succeeds exactly for tables
that name each position once and have counts that fit, and it requires these counts and no others. Else it tells the
least key at fault and the first check that this key fails. -/
theorem roster_read_in_any_order {table : List (String × Nat)} (hkeys : (table.map (·.1)).Nodup) :
    (∀ result, ReadsRoster table result ↔ result = requirementsOf table) ∧ RosterRead table := by
  refine ⟨fun _ => readsRoster_iff hkeys, ?_⟩
  have hresult : requirementsOf table = (readCounts [] (sortByKey table)).map .ofCounts := rfl
  rcases requirementsOf_cases hkeys with ⟨counts, hcounts, hof⟩ | ⟨key, fault, herror, hfirst⟩
  · rw [hcounts] at hresult
    constructor
    case ok_iff => exact iff_of_true ⟨_, hresult⟩ (sound_perm (perm_sortByKey table) hof.sound)
    case required_of_key =>
      intro r hr key count position hmem hposition
      cases hresult.symm.trans hr
      exact hof.required_eq ((perm_sortByKey table).mem_iff.mpr hmem) hposition
    case required_of_none =>
      intro r hr position hnone
      cases hresult.symm.trans hr
      apply Requirements.required_ofCounts_of_not_mem
      rw [hof.mem_positions_iff]
      rintro ⟨entry, hentry, hposition⟩
      exact hnone entry ((perm_sortByKey table).mem_iff.mp hentry) hposition
    case first_fault =>
      intro fault hfault
      cases hresult.symm.trans hfault
  · rw [herror] at hresult
    obtain ⟨count, hmem, hfaulty⟩ := hfirst.faulty
    constructor
    case ok_iff =>
      refine iff_of_false ?_ (hfaulty.not_sound hmem)
      rintro ⟨r, hr⟩
      cases hresult.symm.trans hr
    case required_of_key =>
      intro r hr
      cases hresult.symm.trans hr
    case required_of_none =>
      intro r hr
      cases hresult.symm.trans hr
    case first_fault =>
      intro fault' hfault
      cases hresult.symm.trans hfault
      exact ⟨key, rfl, hfirst⟩

/-- The second of three keys for running backs is at fault, before all for its count. -/
theorem roster_read_of_repeated_key :
    let table := [("rb", 2), ("RB12", 300), ("RB", 1), ("QB", 1)]
    (∀ result, ReadsRoster table result ↔ result = requirementsOf table) ∧ RosterRead table ∧
      requirementsOf table = .error (.roster "RB12" .tooManySlots) := by
  intro table
  obtain ⟨hreads, hread⟩ := roster_read_in_any_order (show (table.map (·.1)).Nodup by decide)
  refine ⟨hreads, hread, ?_⟩
  cbv

end Config

end SnakeDraft
