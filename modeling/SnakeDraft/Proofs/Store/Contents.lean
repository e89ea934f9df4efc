import SnakeDraft.Proofs.Store.Histories
import SnakeDraft.Proofs.Store.Keys
import SnakeDraft.Proofs.Store.Writes

/-!
What a store holds after a history of writes. It is kept as an invariant of the tables (`Store.Follows`) by each of the
four writes, so it holds of every reliable database that was empty at first (`Database.follows_performAll`). From the
tables it is carried over to what is read: the picks and trades of a draft are maps from numbers, in the order of these,
and every draft has its own (`Database.reads_follow_writes`).
-/

namespace SnakeDraft

open Database Write

namespace Store

/-! ### What one write does to the tables -/

theorem mem_picks_savePick {s : Store} {draft : String} {p : StoredPick} {row : PickRow} :
    row ∈ (s.savePick draft p).picks ↔ row ∈ s.picks ∨
      (s.picks.any (PickRow.isAt draft p.number) = false ∧ row = PickRow.ofPick draft p) := by
  unfold savePick
  split
  · next hany => simp [hany]
  · next hnone => simp [hnone, PickRow.ofPick]

theorem mem_picks_removePick {s : Store} {draft : String} {number : Nat} {row : PickRow} :
    row ∈ (s.removePick draft number).2.picks ↔
      row ∈ s.picks ∧ ¬ (row.draft = draft ∧ row.number = number) := by
  unfold removePick
  simp [PickRow.isAt, imp_iff_not_or]

theorem mem_trades_saveTrade {s : Store} {draft : String} {number team : Nat} {row : TradeRow} :
    row ∈ (s.saveTrade draft number team).trades ↔
      (row ∈ s.trades ∧ ¬ (row.draft = draft ∧ row.number = number)) ∨ row = ⟨draft, number, team⟩ := by
  unfold saveTrade
  simp [imp_iff_not_or]

/-- No two trades have one draft and one number. -/
def KeyedTrades (s : Store) : Prop :=
  (s.trades.map fun row => (row.draft, row.number)).Nodup

theorem KeyedTrades.saveTrade {s : Store} (h : s.KeyedTrades) (draft : String) (number team : Nat) :
    (s.saveTrade draft number team).KeyedTrades := by
  unfold KeyedTrades Store.saveTrade
  refine nodup_map_concat (h.sublist (List.filter_sublist.map _)) fun row hrow heq => ?_
  rw [Prod.mk.injEq] at heq
  have hkept := (List.mem_filter.mp hrow).2
  simp [heq.1, heq.2] at hkept

/-! ### The tables after a history -/

/-- A store that holds what a history of writes leaves behind. -/
structure Follows (s : Store) (writes : List Write) : Prop where
  keyed : s.Keyed
  keyedTrades : s.KeyedTrades
  picks : ∀ draft p, PickRow.ofPick draft p ∈ s.picks ↔ SavedFirst writes draft p
  trades : ∀ draft number team, ⟨draft, number, team⟩ ∈ s.trades ↔ TradedLast writes draft number team
  drafts : s.drafts = writes.filterMap newDraft?
  current : s.current = (writes.filterMap newDraft?).getLast?.map Json.quote

theorem follows_empty : empty.Follows [] where
  keyed := keyed_empty
  keyedTrades := by simp [KeyedTrades, empty]
  picks draft p := by simp [empty, not_savedFirst_nil]
  trades draft number team := by simp [empty, not_tradedLast_nil]
  drafts := rfl
  current := rfl

variable {s : Store} {writes : List Write}

/-- A number is taken in the table exactly if a pick stands under it. -/
theorem Follows.any_isAt_iff (h : s.Follows writes) (draft : String) (number : Nat) :
    s.picks.any (PickRow.isAt draft number) = true ↔ Stands writes draft number := by
  rw [stands_iff_exists_savedFirst, List.any_eq_true]
  constructor
  · rintro ⟨row, hrow, hat⟩
    obtain ⟨p, hp⟩ := h.keyed.readable row hrow
    obtain ⟨rfl, rfl⟩ : row.draft = draft ∧ row.number = number := by
      simpa [PickRow.isAt] using hat
    refine ⟨p, ?_, (h.picks _ p).mp (hp ▸ hrow)⟩
    rw [hp]
    rfl
  · rintro ⟨p, rfl, hp⟩
    exact ⟨_, (h.picks draft p).mpr hp, by simp [PickRow.isAt, PickRow.ofPick]⟩

theorem Follows.savePick (h : s.Follows writes) (draft : String) (p : StoredPick) :
    (s.savePick draft p).Follows (writes ++ [.savePick draft p]) where
  keyed := h.keyed.savePick draft p
  keyedTrades := by
    unfold KeyedTrades
    rw [trades_savePick]
    exact h.keyedTrades
  picks other q := by
    rw [mem_picks_savePick, savedFirst_concat, h.picks, ← Bool.not_eq_true, h.any_isAt_iff]
    constructor
    · rintro (hold | ⟨hnone, hrow⟩)
      · exact .inr ⟨hold, by simp⟩
      · obtain rfl : other = draft := congrArg PickRow.draft hrow
        obtain rfl := PickRow.ofPick_inj hrow
        exact .inl ⟨hnone, rfl⟩
    · rintro (⟨hnone, hsave⟩ | ⟨hold, -⟩)
      · cases hsave
        exact .inr ⟨hnone, rfl⟩
      · exact .inl hold
  trades other number team := by
    rw [trades_savePick, h.trades, tradedLast_concat]
    simp
  drafts := by simp [h.drafts, newDraft?]
  current := by simp [h.current, newDraft?]

theorem Follows.removePick (h : s.Follows writes) (draft : String) (number : Nat) :
    (s.removePick draft number).2.Follows (writes ++ [.removePick draft number]) where
  keyed := h.keyed.removePick draft number
  keyedTrades := h.keyedTrades
  picks other p := by
    rw [mem_picks_removePick, savedFirst_concat, h.picks]
    have hkey : (PickRow.ofPick other p).draft = draft ∧ (PickRow.ofPick other p).number = number ↔
        Write.removePick draft number = .removePick other p.number := by
      rw [Write.removePick.injEq]
      exact and_congr eq_comm eq_comm
    rw [hkey]
    simp
  trades other number' team := by
    rw [trades_removePick, h.trades, tradedLast_concat]
    simp
  drafts := by simp [h.drafts, newDraft?]
  current := by simp [h.current, newDraft?]

theorem Follows.saveTrade (h : s.Follows writes) (draft : String) (number team : Nat) :
    (s.saveTrade draft number team).Follows (writes ++ [.saveTrade draft number team]) where
  keyed := ⟨h.keyed.nodup, h.keyed.readable⟩
  keyedTrades := h.keyedTrades.saveTrade draft number team
  picks other p := by
    rw [picks_saveTrade, h.picks, savedFirst_concat]
    simp
  trades other number' team' := by
    rw [mem_trades_saveTrade, tradedLast_concat, h.trades, or_comm, TradeRow.mk.injEq,
      Write.saveTrade.injEq]
    refine or_congr ?_ (and_congr_right fun _ => ?_)
    · exact and_congr eq_comm (and_congr eq_comm eq_comm)
    · constructor
      · rintro hne later heq
        cases heq
        exact hne ⟨rfl, rfl⟩
      · rintro hne ⟨rfl, rfl⟩
        exact hne team rfl
  drafts := by simp [h.drafts, newDraft?]
  current := by simp [h.current, newDraft?]

/-- A draft whose id was not given out before can be started, and is the current one then. -/
theorem Follows.newDraft (h : s.Follows writes) {draft : String} (hnew : draft ∉ writes.filterMap newDraft?) :
    ∃ t, s.newDraft draft = .ok t ∧ t.Follows (writes ++ [.newDraft draft]) := by
  refine ⟨_, newDraft_of_not_mem (h.drafts ▸ hnew), ?_⟩
  constructor
  case keyed => exact ⟨h.keyed.nodup, h.keyed.readable⟩
  case keyedTrades => exact h.keyedTrades
  case picks =>
    intro other p
    refine (h.picks other p).trans ?_
    rw [savedFirst_concat]
    simp
  case trades =>
    intro other number team
    refine (h.trades other number team).trans ?_
    rw [tradedLast_concat]
    simp
  case drafts => simp [h.drafts, newDraft?]
  case current => simp [newDraft?]

/-! ### What is read -/

/-- What is sorted by different numbers increases in them, as long as these are stored as they are. -/
theorem pairwise_lt_of_orderKey {α : Type} {number : α → Nat} {rows : List α}
    (hsorted : rows.Pairwise fun a b => orderKey (number a) ≤ orderKey (number b))
    (hnodup : (rows.map number).Nodup) (hsmall : ∀ row ∈ rows, number row < UInt64.size / 2) :
    rows.Pairwise fun a b => number a < number b := by
  refine (hsorted.and (List.pairwise_map.mp hnodup)).imp_of_mem fun {a b} ha hb hab => ?_
  rw [orderKey_of_lt (hsmall a ha), orderKey_of_lt (hsmall b hb)] at hab
  exact Nat.lt_of_le_of_ne (Int.ofNat_le.mp hab.1) hab.2

/-- The picks of a draft are read as a map from their numbers, in the order of these. -/
theorem Follows.exists_picksOf (h : s.Follows writes)
    (hbound : ∀ w ∈ writes, ∀ number ∈ w.number?, number < UInt64.size / 2) (draft : String) :
    ∃ ps, s.picksOf draft = .ok ps ∧ ps.Pairwise (fun p q => p.number < q.number) ∧
      (∀ number, number ∈ ps.map (·.number) ↔ Stands writes draft number) ∧
      ∀ p, p ∈ ps ↔ SavedFirst writes draft p := by
  obtain ⟨ps, hread, hmem, hnodup, hsorted⟩ := h.keyed.exists_picksOf draft
  have hfirst : ∀ p, p ∈ ps ↔ SavedFirst writes draft p := fun p => (hmem p).trans (h.picks draft p)
  have hsmall : ∀ p ∈ ps, p.number < UInt64.size / 2 := by
    intro p hp
    obtain ⟨before, -, after, rfl, -⟩ := (hfirst p).mp hp
    exact hbound (.savePick draft p) (by simp) p.number rfl
  refine ⟨ps, hread, ?_, fun number => ?_, hfirst⟩
  · exact pairwise_lt_of_orderKey hsorted hnodup hsmall
  · rw [stands_iff_exists_savedFirst, List.mem_map]
    simp only [hfirst, and_comm]

/-- The trades of a draft are read as a map from numbers, in the order of these. -/
theorem Follows.tradesOf (h : s.Follows writes)
    (hbound : ∀ w ∈ writes, ∀ number ∈ w.number?, number < UInt64.size / 2) (draft : String) :
    (s.tradesOf draft).Pairwise (fun a b => a.1 < b.1) ∧
      ∀ number team, (number, team) ∈ s.tradesOf draft ↔ TradedLast writes draft number team := by
  have hlast : ∀ number team, (number, team) ∈ s.tradesOf draft ↔ TradedLast writes draft number team := by
    intro number team
    rw [(tradesOf_perm s draft).mem_iff, ← h.trades, List.mem_map]
    constructor
    · rintro ⟨⟨other, n, t⟩, hrow, heq⟩
      obtain ⟨hmem, hdraft⟩ := List.mem_filter.mp hrow
      obtain rfl : other = draft := by simpa using hdraft
      cases heq
      exact hmem
    · intro hrow
      exact ⟨_, List.mem_filter.mpr ⟨hrow, by simp⟩, rfl⟩
  have hsmall : ∀ trade ∈ s.tradesOf draft, trade.1 < UInt64.size / 2 := by
    rintro ⟨number, team⟩ htrade
    obtain ⟨before, after, rfl, -⟩ := (hlast number team).mp htrade
    exact hbound (.saveTrade draft number team) (by simp) number rfl
  have hnodup : ((s.tradesOf draft).map (·.1)).Nodup := by
    rw [((tradesOf_perm s draft).map _).nodup_iff, List.map_map]
    have hkeys := h.keyedTrades.sublist ((List.filter_sublist (p := fun row => row.draft == draft)).map _)
    refine List.Nodup.of_map (fun number => (draft, number)) ?_
    rw [List.map_map]
    refine (List.map_congr_left fun row hrow => ?_) ▸ hkeys
    simpa using (List.mem_filter.mp hrow).2
  have hsorted : (s.tradesOf draft).Pairwise fun a b => orderKey a.1 ≤ orderKey b.1 := by
    unfold Store.tradesOf
    exact List.pairwise_map.mpr (pairwise_mergeSort_orderKey TradeRow.number _)
  exact ⟨pairwise_lt_of_orderKey hsorted hnodup hsmall, hlast⟩

theorem Follows.currentDraft (h : s.Follows writes) :
    s.currentDraft = .ok (writes.filterMap newDraft?).getLast? := by
  unfold Store.currentDraft
  rw [h.current]
  cases (writes.filterMap newDraft?).getLast? with
  | none => rfl
  | some draft => simp

/-! ### Other drafts -/

theorem picksOf_congr {t : Store} {draft : String} (h : s.rowsOf draft = t.rowsOf draft) :
    s.picksOf draft = t.picksOf draft := by
  unfold rowsOf at h
  unfold picksOf pickRows
  rw [h]

theorem tradesOf_congr {t : Store} (h : s.trades = t.trades) (draft : String) :
    s.tradesOf draft = t.tradesOf draft := by
  unfold tradesOf
  rw [h]

theorem picksOf_savePick_of_ne {draft other : String} (hne : other ≠ draft) (p : StoredPick) :
    (s.savePick other p).picksOf draft = s.picksOf draft := by
  refine picksOf_congr ?_
  unfold savePick rowsOf
  split
  · rfl
  · simp [hne]

theorem picksOf_removePick_of_ne {draft other : String} (hne : other ≠ draft) (number : Nat) :
    (s.removePick other number).2.picksOf draft = s.picksOf draft := by
  refine picksOf_congr ?_
  unfold removePick rowsOf
  simp only [List.filter_filter]
  refine List.filter_congr fun row _ => ?_
  by_cases hdraft : row.draft = draft
  · simp [PickRow.isAt, hdraft, hne.symm]
  · simp [hdraft]

theorem tradesOf_saveTrade_of_ne {draft other : String} (hne : other ≠ draft) (number team : Nat) :
    (s.saveTrade other number team).tradesOf draft = s.tradesOf draft := by
  have hrows : ((s.saveTrade other number team).trades.filter fun row => row.draft == draft) =
      s.trades.filter fun row => row.draft == draft := by
    unfold saveTrade
    rw [List.filter_append, List.filter_cons_of_neg (by simp [hne]), List.filter_nil, List.append_nil,
      List.filter_filter]
    refine List.filter_congr fun row _ => ?_
    by_cases hdraft : row.draft = draft
    · simp [hdraft, hne.symm]
    · simp [hdraft]
  unfold Store.tradesOf
  simp only [hrows]

end Store

namespace Database

/-- Whatever is written to one draft, the picks and trades of the others stay as they are. -/
theorem reads_perform_of_ne (db : Database) {w : Write} {draft : String} (hne : w.draft ≠ draft) :
    (db.perform w).2.store.picksOf draft = db.store.picksOf draft ∧
      (db.perform w).2.store.tradesOf draft = db.store.tradesOf draft := by
  cases w with
  | newDraft other =>
    rcases db.newDraft_cases other with ⟨e, hfail⟩ | ⟨t, hnew, hok⟩
    · simp only [perform, hfail]
      exact ⟨rfl, rfl⟩
    · obtain ⟨hpicks, htrades⟩ := Store.rows_of_newDraft hnew
      simp only [perform, hok, store_written]
      exact ⟨Store.picksOf_congr (congrArg _ hpicks), Store.tradesOf_congr htrades draft⟩
  | savePick other p =>
    rcases db.savePick_cases other p with ⟨e, hfail⟩ | hok
    · simp only [perform, hfail]
      exact ⟨rfl, rfl⟩
    · simp only [perform, hok, store_written]
      exact ⟨Store.picksOf_savePick_of_ne hne p, Store.tradesOf_congr (Store.trades_savePick ..) draft⟩
  | removePick other number =>
    rcases db.removePick_cases other number with ⟨e, hfail⟩ | hok
    · simp only [perform, hfail]
      exact ⟨rfl, rfl⟩
    · simp only [perform, hok, store_written]
      exact ⟨Store.picksOf_removePick_of_ne hne number, rfl⟩
  | saveTrade other number team =>
    rcases db.saveTrade_cases other number team with ⟨e, hfail⟩ | hok
    · simp only [perform, hfail]
      exact ⟨rfl, rfl⟩
    · simp only [perform, hok, store_written]
      exact ⟨rfl, Store.tradesOf_saveTrade_of_ne hne number team⟩

/-- In a reliable database a write succeeds, and the store follows it. -/
theorem Reliable.perform {db : Database} (h : db.Reliable) {writes : List Write}
    (hfollows : db.store.Follows writes) {w : Write} (hfresh : ((writes ++ [w]).filterMap newDraft?).Nodup) :
    (∃ answer, (db.perform w).1 = .ok answer) ∧ (db.perform w).2.Reliable ∧
      (db.perform w).2.store.Follows (writes ++ [w]) := by
  cases w with
  | newDraft draft =>
    have hnew : draft ∉ writes.filterMap newDraft? := by
      rw [List.filterMap_append, List.nodup_append] at hfresh
      intro hmem
      exact hfresh.2.2 draft hmem draft (by simp [newDraft?]) rfl
    obtain ⟨t, hstart, ht⟩ := hfollows.newDraft hnew
    simp only [Database.perform, h.newDraft hstart]
    exact ⟨⟨_, rfl⟩, h.written t, ht⟩
  | savePick draft p =>
    simp only [Database.perform, h.savePick]
    exact ⟨⟨_, rfl⟩, h.written _, hfollows.savePick draft p⟩
  | removePick draft number =>
    simp only [Database.perform, h.removePick]
    exact ⟨⟨_, rfl⟩, h.written _, hfollows.removePick draft number⟩
  | saveTrade draft number team =>
    simp only [Database.perform, h.saveTrade]
    exact ⟨⟨_, rfl⟩, h.written _, hfollows.saveTrade draft number team⟩

/-- A reliable database that was empty at first answers every write, and its store follows all of them. -/
theorem follows_performAll {db : Database} (hreliable : db.Reliable) (hempty : db.store = .empty)
    {writes : List Write} (hfresh : (writes.filterMap newDraft?).Nodup) :
    (∀ answer ∈ (db.performAll writes).1, ∃ a, answer = .ok a) ∧ (db.performAll writes).2.Reliable ∧
      (db.performAll writes).2.store.Follows writes := by
  induction writes using List.reverseRecOn with
  | nil => exact ⟨by simp [performAll], hreliable, hempty ▸ Store.follows_empty⟩
  | append_singleton writes w ih =>
    have hbefore : (writes.filterMap newDraft?).Nodup :=
      hfresh.sublist ((List.sublist_append_left writes [w]).filterMap _)
    obtain ⟨hanswers, hdb, hfollows⟩ := ih hbefore
    obtain ⟨hanswer, hafter⟩ := hdb.perform hfollows hfresh
    rw [performAll_concat]
    refine ⟨fun answer hmem => ?_, hafter⟩
    rcases List.mem_append.mp hmem with hold | hnew
    · exact hanswers answer hold
    · rw [List.mem_singleton.mp hnew]
      exact hanswer

/-- A database is a map of picks and a map of trades for every draft. After any history of writes to a database that
was empty at first, the picks of a draft are read in the order of their numbers: a number is there exactly if a pick
was saved under it and not removed since, and its pick is the first that was saved since. A removal tells whether the
pick was there. The trades are read in the order of their numbers, each with the team it was traded to last. The
current draft is the one that was started last, and no write to a draft changes what another draft has. -/
theorem reads_follow_writes {db : Database} {writes : List Write} (hreliable : db.Reliable)
    (hempty : db.store = .empty) (hfresh : (writes.filterMap newDraft?).Nodup)
    (hbound : ∀ w ∈ writes, ∀ number ∈ w.number?, number < UInt64.size / 2) :
    let after := (db.performAll writes).2
    (∀ answer ∈ (db.performAll writes).1, ∃ a, answer = .ok a) ∧
    (∀ draft, ∃ ps, after.store.picksOf draft = .ok ps ∧ ps.Pairwise (fun p q => p.number < q.number) ∧
      (∀ number, number ∈ ps.map (·.number) ↔ Stands writes draft number) ∧
      ∀ p, p ∈ ps ↔ SavedFirst writes draft p) ∧
    (∀ draft number, ∃ present, (after.perform (.removePick draft number)).1 = .ok (.removed present) ∧
      (present = true ↔ Stands writes draft number)) ∧
    (∀ draft, (after.store.tradesOf draft).Pairwise (fun a b => a.1 < b.1) ∧
      ∀ number team, (number, team) ∈ after.store.tradesOf draft ↔ TradedLast writes draft number team) ∧
    after.store.currentDraft = .ok (writes.filterMap newDraft?).getLast? ∧
    ∀ (w : Write) draft, w.draft ≠ draft →
      (after.perform w).2.store.picksOf draft = after.store.picksOf draft ∧
      (after.perform w).2.store.tradesOf draft = after.store.tradesOf draft := by
  intro after
  obtain ⟨hanswers, hafter, hfollows⟩ := follows_performAll hreliable hempty hfresh
  refine ⟨hanswers, hfollows.exists_picksOf hbound, fun draft number => ?_, hfollows.tradesOf hbound,
    hfollows.currentDraft, fun w draft hne => reads_perform_of_ne after hne⟩
  refine ⟨_, ?_, hfollows.any_isAt_iff draft number⟩
  simp only [after, Database.perform, hafter.removePick]
  rfl

/-- A pick that is saved twice, removed and saved once more, and a pick that is traded twice. -/
theorem reads_follow_a_removal_and_a_trade :
    let first : StoredPick := ⟨0, 0, 0, .drafted, some "Wes Hale", some "QB"⟩
    let second : StoredPick := ⟨0, 0, 0, .benched, some "Cole Rowe", none⟩
    let writes : List Write := [.newDraft "a", .savePick "a" first, .savePick "a" second, .removePick "a" 0,
      .newDraft "b", .savePick "a" second, .savePick "b" first, .savePick "a" first, .saveTrade "b" 7 2,
      .saveTrade "b" 7 1]
    let after := ((ofStore .empty).performAll writes).2
    (ofStore .empty).Reliable ∧ (writes.filterMap newDraft?).Nodup ∧
    (∀ w ∈ writes, ∀ number ∈ w.number?, number < UInt64.size / 2) ∧
    SavedFirst writes "a" second ∧ ¬ SavedFirst writes "a" first ∧ TradedLast writes "b" 7 1 ∧
    after.store.currentDraft = .ok (some "b") := by
  intro first second writes after
  have hfresh : (writes.filterMap newDraft?).Nodup := by decide
  have hbound : ∀ w ∈ writes, ∀ number ∈ w.number?, number < UInt64.size / 2 := by
    simp [writes, number?, first, second, UInt64.size]
  obtain ⟨-, hpicks, -, htrades, hcurrent, -⟩ :=
    reads_follow_writes (reliable_ofStore .empty) rfl hfresh hbound
  obtain ⟨ps, hread, -, -, hfirst⟩ := hpicks "a"
  have hps : ps = [second] := by
    have hstored : after.store.picksOf "a" = .ok [second] := by decide +kernel
    exact Except.ok.inj (hread.symm.trans hstored)
  have htraded : (7, 1) ∈ after.store.tradesOf "b" := by decide +kernel
  rw [hps] at hfirst
  refine ⟨reliable_ofStore .empty, hfresh, hbound, (hfirst second).mp (by simp), ?_, ?_, hcurrent⟩
  · exact fun h => absurd ((hfirst first).mpr h) (by decide)
  · exact ((htrades "b").2 7 1).mp htraded

end Database

end SnakeDraft
