import SnakeDraft.Proofs.Store.Rows

/-!
Stores in which a draft and a number stand for one pick (`Store.Keyed`). Whatever is written to a store keeps
it so (`Store.Written.keyed`), and such a store gives back for a number exactly the pick whose row it holds
(`Store.Keyed.holds_iff`). A pick that is saved is therefore the one that is stored, unless another row
stands under its number already (`Store.Keyed.holds_savePick_iff`).
-/

namespace SnakeDraft

theorem PickRow.ofPick_inj {draft : String} {p q : StoredPick} (h : ofPick draft p = ofPick draft q) :
    p = q := by
  have hread := congrArg PickRow.toPick h
  rw [PickRow.toPick_ofPick, PickRow.toPick_ofPick] at hread
  exact Except.ok.inj hread

namespace Store

/-- A store after one write to it, or after none. -/
inductive Written (s : Store) : Store → Prop where
  | same : Written s s
  | savePick (draft : String) (p : StoredPick) : Written s (s.savePick draft p)
  | removePick (draft : String) (number : Nat) : Written s (s.removePick draft number).2
  | saveTrade (draft : String) (number team : Nat) : Written s (s.saveTrade draft number team)
  | newDraft {draft : String} {t : Store} (h : s.newDraft draft = .ok t) : Written s t

/-- No two rows of picks have one draft and one number, and every row is the row of a pick. -/
structure Keyed (s : Store) : Prop where
  nodup : (s.picks.map fun row => (row.draft, row.number)).Nodup
  readable : ∀ row ∈ s.picks, ∃ p, row = PickRow.ofPick row.draft p

theorem keyed_empty : empty.Keyed :=
  ⟨by simp [empty], by simp [empty]⟩

theorem Keyed.savePick {s : Store} (h : s.Keyed) (draft : String) (p : StoredPick) :
    (s.savePick draft p).Keyed := by
  unfold Store.savePick
  split
  · exact h
  · next hnone =>
    constructor
    case nodup =>
      refine nodup_map_concat h.nodup fun row hrow heq => ?_
      rw [Prod.mk.injEq] at heq
      apply hnone
      exact List.any_eq_true.mpr ⟨row, hrow, by simp [PickRow.isAt, heq.1, heq.2]⟩
    case readable =>
      intro row hrow
      rcases List.mem_append.mp hrow with hold | hnew
      · exact h.readable row hold
      · rw [List.mem_singleton.mp hnew]
        exact ⟨p, rfl⟩

theorem Keyed.removePick {s : Store} (h : s.Keyed) (draft : String) (number : Nat) :
    (s.removePick draft number).2.Keyed :=
  ⟨h.nodup.sublist (List.filter_sublist.map _),
    fun row hrow => h.readable row (List.mem_of_mem_filter hrow)⟩

theorem Written.keyed {s t : Store} (h : s.Written t) (hs : s.Keyed) : t.Keyed := by
  cases h with
  | same => exact hs
  | savePick draft p => exact hs.savePick draft p
  | removePick draft number => exact hs.removePick draft number
  | saveTrade draft number team => exact ⟨hs.nodup, hs.readable⟩
  | newDraft h =>
    unfold Store.newDraft at h
    split at h
    · cases h
    · cases h
      exact ⟨hs.nodup, hs.readable⟩

/-- A store gives back for the number of a pick exactly this pick. -/
def Holds (s : Store) (draft : String) (p : StoredPick) : Prop :=
  ∃ stored, s.picksOf draft = .ok stored ∧ stored.filter (fun q => q.number = p.number) = [p]

/-- Among picks with different numbers the only one with the number of a pick is the pick itself. -/
theorem filter_number_eq_singleton {stored : List StoredPick} (hnodup : (stored.map (·.number)).Nodup)
    (p : StoredPick) : stored.filter (fun q => q.number = p.number) = [p] ↔ p ∈ stored := by
  constructor
  · intro h
    have hmem : p ∈ stored.filter (fun q => q.number = p.number) := by
      rw [h]
      exact List.mem_cons_self
    exact List.mem_of_mem_filter hmem
  · intro hp
    obtain ⟨before, after, rfl⟩ := List.append_of_mem hp
    rw [List.map_append, List.map_cons, List.nodup_append, List.nodup_cons] at hnodup
    obtain ⟨-, ⟨hafter, -⟩, hbefore⟩ := hnodup
    have hfront : before.filter (fun q => q.number = p.number) = [] := by
      refine List.filter_eq_nil_iff.mpr fun q hq => ?_
      have hne := hbefore _ (List.mem_map_of_mem hq) _ List.mem_cons_self
      simpa using hne
    have hback : after.filter (fun q => q.number = p.number) = [] := by
      refine List.filter_eq_nil_iff.mpr fun q hq => ?_
      have hne : q.number ≠ p.number := fun heq => hafter (heq ▸ List.mem_map_of_mem hq)
      simpa using hne
    rw [List.filter_append, List.filter_cons_of_pos (by simp), hfront, hback]
    rfl

/-- What is sorted by numbers stands in their order. -/
theorem pairwise_mergeSort_orderKey {α : Type} (number : α → Nat) (rows : List α) :
    (rows.mergeSort fun a b => orderKey (number a) ≤ orderKey (number b)).Pairwise
      fun a b => orderKey (number a) ≤ orderKey (number b) := by
  have htrans : ∀ a b c, decide (orderKey (number a) ≤ orderKey (number b)) = true →
      decide (orderKey (number b) ≤ orderKey (number c)) = true →
      decide (orderKey (number a) ≤ orderKey (number c)) = true := by
    intro a b c hab hbc
    exact decide_eq_true (Int.le_trans (of_decide_eq_true hab) (of_decide_eq_true hbc))
  have htotal : ∀ a b, (decide (orderKey (number a) ≤ orderKey (number b)) ||
      decide (orderKey (number b) ≤ orderKey (number a))) = true := by
    intro a b
    simpa using Int.le_total (orderKey (number a)) (orderKey (number b))
  have hpairwise := List.pairwise_mergeSort htrans htotal rows
  exact hpairwise.imp fun hle => of_decide_eq_true hle

/-- Rows of one draft are read back as the picks that they are the rows of. -/
theorem exists_picks_of_readable {draft : String} {rows : List PickRow}
    (h : ∀ row ∈ rows, row.draft = draft ∧ ∃ p, row = PickRow.ofPick row.draft p) :
    ∃ ps : List StoredPick, rows = ps.map (PickRow.ofPick draft) := by
  induction rows with
  | nil => exact ⟨[], rfl⟩
  | cons row rows ih =>
    obtain ⟨rfl, p, hp⟩ := h row List.mem_cons_self
    obtain ⟨ps, hps⟩ := ih fun other hother => h other (List.mem_cons_of_mem row hother)
    exact ⟨p :: ps, by rw [List.map_cons, ← hp, ← hps]⟩

/-- A keyed store gives back the picks whose rows it holds, in the order of the numbers they are stored under. -/
theorem Keyed.exists_picksOf {s : Store} (h : s.Keyed) (draft : String) :
    ∃ ps, s.picksOf draft = .ok ps ∧ (∀ p, p ∈ ps ↔ PickRow.ofPick draft p ∈ s.picks) ∧
      (ps.map (·.number)).Nodup ∧ ps.Pairwise fun p q => orderKey p.number ≤ orderKey q.number := by
  have hmem : ∀ row, row ∈ s.pickRows draft ↔ row ∈ s.picks ∧ row.draft = draft := by
    intro row
    unfold pickRows
    rw [List.mem_mergeSort, List.mem_filter, beq_iff_eq]
  obtain ⟨ps, hps⟩ : ∃ ps : List StoredPick, s.pickRows draft = ps.map (PickRow.ofPick draft) := by
    refine exists_picks_of_readable fun row hrow => ?_
    obtain ⟨hrow, hdraft⟩ := (hmem row).mp hrow
    exact ⟨hdraft, h.readable row hrow⟩
  have hread : s.picksOf draft = .ok ps := by
    unfold picksOf
    rw [hps, toPicks_map_ofPick]
  have hnodup : (ps.map (·.number)).Nodup := by
    have hkeys : ((s.pickRows draft).map fun row => (row.draft, row.number)).Nodup := by
      have hperm := (List.mergeSort_perm (s.picks.filter fun row => row.draft == draft)
        fun a b => orderKey a.number ≤ orderKey b.number).map fun row => (row.draft, row.number)
      exact hperm.nodup_iff.mpr (h.nodup.sublist (List.filter_sublist.map _))
    rw [hps, List.map_map] at hkeys
    exact List.Nodup.of_map (fun number => (draft, number)) (by rw [List.map_map]; exact hkeys)
  have hsorted : ps.Pairwise fun p q => orderKey p.number ≤ orderKey q.number := by
    have hrows := pairwise_mergeSort_orderKey PickRow.number (s.picks.filter fun row => row.draft == draft)
    change (s.pickRows draft).Pairwise _ at hrows
    rw [hps, List.pairwise_map] at hrows
    exact hrows
  refine ⟨ps, hread, fun p => ?_, hnodup, hsorted⟩
  have hrow := hmem (PickRow.ofPick draft p)
  rw [hps] at hrow
  constructor
  · intro hp
    exact (hrow.mp (List.mem_map_of_mem hp)).1
  · intro hp
    obtain ⟨q, hq, heq⟩ := List.mem_map.mp (hrow.mpr ⟨hp, rfl⟩)
    exact PickRow.ofPick_inj heq ▸ hq

theorem Keyed.holds_iff {s : Store} (h : s.Keyed) (draft : String) (p : StoredPick) :
    s.Holds draft p ↔ PickRow.ofPick draft p ∈ s.picks := by
  obtain ⟨ps, hread, hmem, hnodup, -⟩ := h.exists_picksOf draft
  rw [← hmem, ← filter_number_eq_singleton hnodup]
  constructor
  · rintro ⟨stored, hstored, hfilter⟩
    cases hread.symm.trans hstored
    exact hfilter
  · intro hfilter
    exact ⟨ps, hread, hfilter⟩

/-- A pick that is saved is the one that is stored exactly if no other row stood under its number. -/
theorem Keyed.holds_savePick_iff {s : Store} (h : s.Keyed) (draft : String) (p : StoredPick) :
    (s.savePick draft p).Holds draft p ↔
      ∀ row ∈ s.picks, row.isAt draft p.number = true → row = PickRow.ofPick draft p := by
  rw [(h.savePick draft p).holds_iff]
  unfold Store.savePick
  split
  · next hany =>
    obtain ⟨row, hrow, hat⟩ := List.any_eq_true.mp hany
    constructor
    · intro hp other hother hat'
      refine List.inj_on_of_nodup_map h.nodup hother hp ?_
      simpa [PickRow.isAt, PickRow.ofPick] using hat'
    · intro hall
      exact hall row hrow hat ▸ hrow
  · next hnone =>
    constructor
    · intro _ row hrow hat
      exact absurd (List.any_eq_true.mpr ⟨row, hrow, hat⟩) hnone
    · intro _
      exact List.mem_append_right _ List.mem_cons_self

end Store

end SnakeDraft
