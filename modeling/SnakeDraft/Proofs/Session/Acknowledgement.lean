import SnakeDraft.Proofs.Session.World

/-!
Which picks are stored once they are acknowledged. A pick is acknowledged when the operation that makes it
succeeds and nothing more counts as unsaved. It is then the one that the store gives back for its number
exactly if no other row stood under this number before; a row that another session or a failed removal has
left there stays instead, unnoticed.
-/

namespace SnakeDraft

namespace Session

/-- A pick that is acknowledged was handed to the store. -/
theorem store_of_acknowledged {s t : Session} {db : Database} (hs : s.database = some db)
    {op : Operation} {r : PickRecord} (hpick : s.perform op = (.picked (.ok r), t))
    (hsaved : t.unsaved ≤ s.unsaved) : t.store = db.store.savePick s.draftId r.toStored := by
  have hcommit : ∀ selection, s.commitPick selection = (.ok r, t) →
      t.store = db.store.savePick s.draftId r.toStored := by
    intro selection hcommit
    unfold commitPick at hcommit
    split at hcommit
    · cases hcommit
    · next p state _ =>
      obtain ⟨hr, rfl⟩ := Prod.mk.inj hcommit
      obtain rfl := Except.ok.inj hr
      rcases persist_cases (s := { s with state }) hs p with hfail | hok
      · rw [hfail] at hsaved
        simp only at hsaved
        omega
      · rw [hok]
        rfl
  have hchoice : ∀ choice, s.choice? op = some choice →
      t.store = db.store.savePick s.draftId r.toStored := by
    intro choice hchoice
    rw [perform_of_choice hchoice] at hpick
    cases choice with
    | error e => simp [answer] at hpick
    | ok selection =>
      obtain ⟨hresult, hnext⟩ := Prod.mk.inj hpick
      exact hcommit selection (Prod.ext (Reply.picked.inj hresult) hnext)
  cases op with
  | makePick name => exact hchoice _ rfl
  | bench name => exact hchoice _ rfl
  | autoPick clock => exact hchoice _ rfl
  | undo => cases hpick
  | givePick index team => cases hpick
  | reset freshId => cases hpick

end Session

namespace World

/-- A pick that is acknowledged is the one that the store gives back for its number, whatever happened
before, exactly if no other row stood under this number. -/
theorem acknowledged_pick_stored_iff (actions : List Action) {session : Nat} {failures : List Bool}
    {op : Operation} {s t : Session} {r : PickRecord}
    (hpick : (run actions).pick? session failures op = some (s, r, t))
    (hsaved : t.unsaved ≤ s.unsaved) :
    t.store.Holds s.draftId r.toStored ↔
      ∀ row ∈ (run actions).store.picks, row.isAt s.draftId r.number = true →
        row = PickRow.ofPick s.draftId r.toStored := by
  obtain ⟨-, hperform⟩ := pick?_eq_some hpick
  rw [Session.store_of_acknowledged rfl hperform hsaved]
  exact (keyed_run actions).holds_savePick_iff s.draftId r.toStored

theorem acknowledged_pick_stored_alone :
    let config : Config := ⟨⟨1, 1, none, .standard⟩, {}, ⟨"board.csv", false⟩, none⟩
    let board := Board.ofPlayers #[⟨"QB A", .quarterback, 10, 1⟩, ⟨"QB B", .quarterback, 8, 2⟩]
    ∃ s r t, (run [.launch .stops config board [] ⟨"first", 1⟩]).pick? 0 [] (.makePick "QB A") =
        some (s, r, t) ∧
      t.unsaved ≤ s.unsaved ∧ t.store.Holds s.draftId r.toStored := by
  intro config board
  have hcheck : ((run [.launch .stops config board [] ⟨"first", 1⟩]).pick? 0 [] (.makePick "QB A")).any
      (fun (s, _, t) => t.unsaved ≤ s.unsaved) = true := by
    decide +kernel
  have hnone : (run [.launch .stops config board [] ⟨"first", 1⟩]).store.picks = [] := by
    decide +kernel
  obtain ⟨⟨s, r, t⟩, hpick, hsaved⟩ := (Option.any_eq_true _ _).mp hcheck
  replace hsaved : t.unsaved ≤ s.unsaved := of_decide_eq_true hsaved
  refine ⟨s, r, t, hpick, hsaved, (acknowledged_pick_stored_iff _ hpick hsaved).mpr ?_⟩
  rw [hnone]
  intro row hrow
  cases hrow

/-- A row that another session has stored stays in place of a pick that is acknowledged. -/
theorem acknowledged_pick_lost :
    let config : Config := ⟨⟨1, 1, none, .standard⟩, {}, ⟨"board.csv", false⟩, none⟩
    let board := Board.ofPlayers #[⟨"QB A", .quarterback, 10, 1⟩, ⟨"QB B", .quarterback, 8, 2⟩]
    let actions : List Action := [.launch .stops config board [] ⟨"first", 1⟩,
      .launch .stops config board [] ⟨"second", 2⟩, .operate 1 [] (.makePick "QB B")]
    ∃ s r t, (run actions).pick? 0 [] (.makePick "QB A") = some (s, r, t) ∧
      t.unsaved ≤ s.unsaved ∧ ¬ t.store.Holds s.draftId r.toStored := by
  intro config board actions
  have hcheck : ((run actions).pick? 0 [] (.makePick "QB A")).any
      (fun (s, r, t) => t.unsaved ≤ s.unsaved ∧
        PickRow.ofPick s.draftId r.toStored ∉ t.store.picks) = true := by
    decide +kernel
  obtain ⟨⟨s, r, t⟩, hpick, hfound⟩ := (Option.any_eq_true _ _).mp hcheck
  obtain ⟨hsaved, hlost⟩ : t.unsaved ≤ s.unsaved ∧
      PickRow.ofPick s.draftId r.toStored ∉ t.store.picks := of_decide_eq_true hfound
  refine ⟨s, r, t, hpick, hsaved, fun hholds => hlost ?_⟩
  obtain ⟨-, hperform⟩ := pick?_eq_some hpick
  have hkeyed : t.store.Keyed := by
    rw [Session.store_of_acknowledged rfl hperform hsaved]
    exact (keyed_run actions).savePick _ _
  exact (hkeyed.holds_iff _ _).mp hholds

end World

end SnakeDraft
