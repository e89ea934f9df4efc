import SnakeDraft.Proofs.Draft.Trades
import SnakeDraft.Proofs.Json.Quoting
import SnakeDraft.Store.Basic

/-!
What a store gives back. The rows of one draft are looked at by themselves (`Store.rowsOf`): saving a pick
under a new number adds a row at their end, removing one takes its row out, and rows in order are read back
as the picks they were stored for (`Store.picksOf_of_rowsOf`). The stored trades of a draft lead to the same
schedule as the trades that were made (`Store.applyTrades_saveTrade`).
-/

namespace SnakeDraft

/-- The row that a pick of a draft is stored in. -/
def PickRow.ofPick (draft : String) (p : StoredPick) : PickRow :=
  ⟨draft, p.number, p.round, p.team, p.kind.name, p.player, p.position⟩

@[simp] theorem PickRow.toPick_ofPick (draft : String) (p : StoredPick) :
    (ofPick draft p).toPick = .ok p := by
  simp [toPick, ofPick]

/-- Numbers below half of what 64 bits hold are ordered as they are. -/
theorem orderKey_of_lt {n : Nat} (hn : n < UInt64.size / 2) : orderKey n = n := by
  have hsize : UInt64.size = 18446744073709551616 := rfl
  unfold orderKey
  exact Int.bmod_eq_of_le (by omega) (by omega)

namespace Store

/-- The rows of a draft's picks in the order in which they were stored. -/
def rowsOf (s : Store) (draft : String) : List PickRow :=
  s.picks.filter fun row => row.draft == draft

/-- The rows of all picks and trades belong to drafts that were started. -/
structure Registered (s : Store) : Prop where
  picks : ∀ row ∈ s.picks, row.draft ∈ s.drafts
  trades : ∀ row ∈ s.trades, row.draft ∈ s.drafts

theorem registered_empty : empty.Registered :=
  ⟨by simp [empty], by simp [empty]⟩

theorem rowsOf_eq_nil {s : Store} (hs : s.Registered) {draft : String} (hnew : draft ∉ s.drafts) :
    s.rowsOf draft = [] := by
  refine List.filter_eq_nil_iff.mpr fun row hrow => ?_
  intro hdraft
  exact hnew (beq_iff_eq.mp hdraft ▸ hs.picks row hrow)

theorem picksOf_eq_nil {s : Store} (hpicks : s.picks = []) (draft : String) : s.picksOf draft = .ok [] := by
  unfold picksOf pickRows
  rw [hpicks, List.filter_nil, List.mergeSort_nil]
  rfl

theorem tradesOf_eq_nil {s : Store} (hs : s.Registered) {draft : String} (hnew : draft ∉ s.drafts) :
    s.tradesOf draft = [] := by
  have hrows : (s.trades.filter fun row => row.draft == draft) = [] := by
    refine List.filter_eq_nil_iff.mpr fun row hrow => ?_
    intro hdraft
    exact hnew (beq_iff_eq.mp hdraft ▸ hs.trades row hrow)
  unfold tradesOf
  simp only [hrows, List.mergeSort_nil, List.map_nil]

theorem newDraft_of_not_mem {s : Store} {draft : String} (hnew : draft ∉ s.drafts) :
    s.newDraft draft =
      .ok { s with drafts := s.drafts ++ [draft], current := some (Json.quote draft) } := by
  unfold newDraft
  rw [if_neg (by simpa using hnew)]

/-- A new draft leaves all rows as they are. -/
theorem rows_of_newDraft {s t : Store} {draft : String} (h : s.newDraft draft = .ok t) :
    t.picks = s.picks ∧ t.trades = s.trades := by
  unfold newDraft at h
  split at h
  · cases h
  · cases h
    exact ⟨rfl, rfl⟩

theorem toPicks_map_ofPick (draft : String) (ps : List StoredPick) :
    toPicks (ps.map (PickRow.ofPick draft)) = .ok ps := by
  induction ps with
  | nil => rfl
  | cons p ps ih =>
    rw [List.map_cons, toPicks, PickRow.toPick_ofPick, ih]
    rfl

/-- Picks that were stored in the order of their numbers are read back as they are. -/
theorem picksOf_of_rowsOf {s : Store} {draft : String} {ps : List StoredPick}
    (hrows : s.rowsOf draft = ps.map (PickRow.ofPick draft))
    (hsorted : ps.Pairwise fun p q => p.number < q.number)
    (hbound : ∀ p ∈ ps, p.number < UInt64.size / 2) : s.picksOf draft = .ok ps := by
  have hpairwise : (ps.map (PickRow.ofPick draft)).Pairwise
      fun a b => decide (orderKey a.number ≤ orderKey b.number) = true := by
    rw [List.pairwise_map]
    refine hsorted.imp_of_mem fun {p q} hp hq hlt => ?_
    show decide (orderKey p.number ≤ orderKey q.number) = true
    rw [orderKey_of_lt (hbound p hp), orderKey_of_lt (hbound q hq)]
    exact decide_eq_true (Int.ofNat_le.mpr (Nat.le_of_lt hlt))
  unfold picksOf pickRows
  show toPicks ((s.rowsOf draft).mergeSort _) = _
  rw [hrows, List.mergeSort_of_pairwise hpairwise, toPicks_map_ofPick]

theorem rowsOf_savePick {s : Store} {draft : String} {p : StoredPick}
    (hnew : ∀ row ∈ s.rowsOf draft, row.number ≠ p.number) :
    (s.savePick draft p).rowsOf draft = s.rowsOf draft ++ [PickRow.ofPick draft p] := by
  have hnone : s.picks.any (PickRow.isAt draft p.number) = false := by
    rw [List.any_eq_false]
    intro row hrow hat
    obtain ⟨hdraft, hnumber⟩ : row.draft = draft ∧ row.number = p.number := by
      simpa [PickRow.isAt] using hat
    exact hnew row (List.mem_filter.mpr ⟨hrow, by simpa using hdraft⟩) hnumber
  unfold savePick rowsOf
  rw [hnone]
  simp [PickRow.ofPick]

theorem rowsOf_removePick (s : Store) (draft : String) (number : Nat) :
    (s.removePick draft number).2.rowsOf draft =
      (s.rowsOf draft).filter fun row => row.number ≠ number := by
  unfold removePick rowsOf
  simp only [List.filter_filter]
  refine List.filter_congr fun row _ => ?_
  unfold PickRow.isAt
  by_cases hdraft : row.draft = draft
  · by_cases hnumber : row.number = number <;> simp [hdraft, hnumber]
  · simp [beq_eq_false_iff_ne.mpr hdraft]

@[simp] theorem drafts_savePick (s : Store) (draft : String) (p : StoredPick) :
    (s.savePick draft p).drafts = s.drafts := by
  unfold savePick
  split <;> rfl

@[simp] theorem current_savePick (s : Store) (draft : String) (p : StoredPick) :
    (s.savePick draft p).current = s.current := by
  unfold savePick
  split <;> rfl

@[simp] theorem trades_savePick (s : Store) (draft : String) (p : StoredPick) :
    (s.savePick draft p).trades = s.trades := by
  unfold savePick
  split <;> rfl

@[simp] theorem drafts_removePick (s : Store) (draft : String) (number : Nat) :
    (s.removePick draft number).2.drafts = s.drafts := rfl

@[simp] theorem current_removePick (s : Store) (draft : String) (number : Nat) :
    (s.removePick draft number).2.current = s.current := rfl

@[simp] theorem trades_removePick (s : Store) (draft : String) (number : Nat) :
    (s.removePick draft number).2.trades = s.trades := rfl

@[simp] theorem drafts_saveTrade (s : Store) (draft : String) (number team : Nat) :
    (s.saveTrade draft number team).drafts = s.drafts := rfl

@[simp] theorem current_saveTrade (s : Store) (draft : String) (number team : Nat) :
    (s.saveTrade draft number team).current = s.current := rfl

@[simp] theorem picks_saveTrade (s : Store) (draft : String) (number team : Nat) :
    (s.saveTrade draft number team).picks = s.picks := rfl

theorem Registered.savePick {s : Store} (hs : s.Registered) {draft : String}
    (hdraft : draft ∈ s.drafts) (p : StoredPick) : (s.savePick draft p).Registered := by
  unfold Store.savePick
  split
  · exact hs
  · refine ⟨fun row hrow => ?_, hs.trades⟩
    rcases List.mem_append.mp hrow with hold | hnew
    · exact hs.picks row hold
    · rw [List.mem_singleton.mp hnew]
      exact hdraft

theorem Registered.removePick {s : Store} (hs : s.Registered) (draft : String) (number : Nat) :
    (s.removePick draft number).2.Registered :=
  ⟨fun row hrow => hs.picks row (List.mem_of_mem_filter hrow), hs.trades⟩

theorem Registered.saveTrade {s : Store} (hs : s.Registered) {draft : String}
    (hdraft : draft ∈ s.drafts) (number team : Nat) :
    (s.saveTrade draft number team).Registered := by
  refine ⟨hs.picks, fun row hrow => ?_⟩
  rcases List.mem_append.mp hrow with hold | hnew
  · exact hs.trades row (List.mem_of_mem_filter hold)
  · rw [List.mem_singleton.mp hnew]
    exact hdraft

theorem Registered.newDraft {s t : Store} (hs : s.Registered) {draft : String}
    (h : s.newDraft draft = .ok t) : t.Registered := by
  unfold Store.newDraft at h
  split at h
  · cases h
  · cases h
    exact ⟨fun row hrow => List.mem_append_left _ (hs.picks row hrow),
      fun row hrow => List.mem_append_left _ (hs.trades row hrow)⟩

theorem tradesOf_perm (s : Store) (draft : String) :
    (s.tradesOf draft).Perm
      ((s.trades.filter fun row => row.draft == draft).map fun row => (row.number, row.team)) :=
  (List.mergeSort_perm _ _).map _

/-- Saving a trade replaces the trade of the same pick. -/
theorem tradesOf_saveTrade_perm (s : Store) (draft : String) (number team : Nat) :
    ((s.saveTrade draft number team).tradesOf draft).Perm
      ((s.tradesOf draft).filter (·.1 ≠ number) ++ [(number, team)]) := by
  have hrows : ((s.saveTrade draft number team).trades.filter fun row => row.draft == draft) =
      (s.trades.filter fun row => row.draft == draft).filter (·.number ≠ number) ++
        [⟨draft, number, team⟩] := by
    unfold saveTrade
    simp only [List.filter_append, List.filter_filter]
    congr 1
    · refine List.filter_congr fun row _ => ?_
      by_cases hdraft : row.draft = draft
      · by_cases hnumber : row.number = number <;> simp [hdraft, hnumber]
      · simp [beq_eq_false_iff_ne.mpr hdraft]
    · simp
  refine (tradesOf_perm _ draft).trans ?_
  rw [hrows, List.map_append]
  refine List.Perm.append_right _ ?_
  have hperm := (tradesOf_perm s draft).symm.filter (fun trade => decide (trade.1 ≠ number))
  rw [List.filter_map] at hperm
  exact hperm

/-- Keys stay different when a row with another key is added. -/
theorem nodup_map_concat {α κ : Type} {key : α → κ} {rows : List α} (h : (rows.map key).Nodup) {row : α}
    (hnew : ∀ other ∈ rows, key other ≠ key row) : ((rows ++ [row]).map key).Nodup := by
  rw [List.map_append, List.nodup_append]
  refine ⟨h, by simp, fun k hk l hl => ?_⟩
  obtain ⟨other, hother, rfl⟩ := List.mem_map.mp hk
  rw [List.map_cons, List.map_nil, List.mem_singleton] at hl
  rw [hl]
  exact hnew other hother

theorem nodup_tradesOf_saveTrade {s : Store} {draft : String}
    (hs : ((s.tradesOf draft).map (·.1)).Nodup) (number team : Nat) :
    (((s.saveTrade draft number team).tradesOf draft).map (·.1)).Nodup := by
  rw [((tradesOf_saveTrade_perm s draft number team).map _).nodup_iff]
  refine nodup_map_concat (hs.sublist (List.filter_sublist.map _)) fun trade htrade => ?_
  simpa using (List.mem_filter.mp htrade).2

/-- The stored trades follow a trade that is saved. -/
theorem applyTrades_saveTrade {s : Store} {draft : String}
    (hs : ((s.tradesOf draft).map (·.1)).Nodup) {base : Schedule} {number team : Nat}
    (hteam : team < base.numTeams) :
    base.applyTrades ((s.saveTrade draft number team).tradesOf draft) =
      (base.applyTrades (s.tradesOf draft)).trade number team := by
  rw [base.applyTrades_perm (tradesOf_saveTrade_perm s draft number team)
    (nodup_tradesOf_saveTrade hs number team), Schedule.applyTrades_concat]
  exact Schedule.trade_applyTrades_filter rfl rfl hteam _

end Store

end SnakeDraft
