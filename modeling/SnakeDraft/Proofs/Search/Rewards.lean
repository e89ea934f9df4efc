import Mathlib.Algebra.BigOperators.Group.List.Basic
import SnakeDraft.Proofs.Search.Correspondence

/-!
What the reward of an iteration counts. Points are added up by the descent, by the step to a new child and by the
playout, all on one copy of the draft. Wherever the iteration stands, they are the points of the picks that this copy
has made since the root (`Search.Descent.Accounted`), so at the end every pick is counted once
(`Search.accounts_of_playout`).
-/

namespace SnakeDraft

/-- The points that a pick earns the target team: those of the player whom this team drafts. -/
def Pick.pointsFor (board : Board) (target : Nat) (pick : Pick) : Float :=
  match pick.selection with
  | .drafted id => if pick.turn.team = target then ((board.player? id).map (·.points)).getD 0 else 0
  | .benched _ | .passed => 0

/-- The points that picks earn the target team, added up from left to right. -/
def earned (board : Board) (target : Nat) (picks : List Pick) : Float :=
  (picks.map (·.pointsFor board target)).foldl (· + ·) 0

theorem earned_concat (board : Board) (target : Nat) (picks : List Pick) (pick : Pick) :
    earned board target (picks ++ [pick]) = earned board target picks + pick.pointsFor board target := by
  simp only [earned, List.map_append, List.foldl_append, List.map_cons, List.map_nil, List.foldl_cons,
    List.foldl_nil]

namespace DraftState

variable {s t u : DraftState} {rules : Rules} {choice : Choice} {pick : Pick}

/-- The picks from a place of the history on. -/
def picksFrom (s : DraftState) (start : Nat) : List Pick :=
  s.picks.toList.drop start

theorem picksFrom_pointer (s : DraftState) : s.picksFrom s.pointer = [] :=
  List.drop_length

/-- The sum that `teamPoints` rounds, of the exact numbers that the points stand for. -/
def exactPoints {G : Type} [AddCommGroup G] (value : Float → G) (s : DraftState) (board : Board)
    (team : Nat) : G :=
  ((s.draftedPoints board team).map value).sum

theorem pick_of_apply (h : s.apply rules choice = .ok (pick, t)) :
    ∃ turn, s.onClock? rules.schedule = some turn ∧ pick.turn = { turn with index := s.pointer } ∧
      pick.selection = choice.selection ∧ t.picks = s.picks.push pick := by
  obtain ⟨turn, hturn, hrecord⟩ := record_of_select h
  obtain ⟨slot, -, rfl, hpicks, -⟩ := places_of_record hrecord
  exact ⟨turn, hturn, rfl, rfl, hpicks⟩

theorem picksFrom_of_apply (h : s.apply rules choice = .ok (pick, t)) {start : Nat}
    (hstart : start ≤ s.pointer) : t.picksFrom start = s.picksFrom start ++ [pick] := by
  obtain ⟨turn, -, -, -, hpicks⟩ := pick_of_apply h
  rw [picksFrom, hpicks, Array.toList_push]
  exact List.drop_append_of_le_length hstart

/-- What a choice is credited with are the points of the pick that it makes. -/
theorem apply_of_advance {target : Nat} {points : Float}
    (h : s.advance rules target choice = .ok (points, t)) :
    ∃ pick, s.apply rules choice = .ok (pick, t) ∧ points = pick.pointsFor rules.board target := by
  unfold advance at h
  cases happly : s.apply rules choice with
  | error e => rw [happly] at h; cases h
  | ok result =>
    obtain ⟨pick, next⟩ := result
    obtain ⟨turn, -, -, hselection, -⟩ := pick_of_apply happly
    rw [happly] at h
    cases h
    refine ⟨pick, rfl, ?_⟩
    unfold Pick.pointsFor
    rw [hselection]
    cases choice <;> rfl

/-- Choices of the teams on the clock lead from one state to another. -/
def Follows (rules : Rules) : DraftState → DraftState → Prop :=
  Relation.ReflTransGen fun s t => ∃ choice pick, s.apply rules choice = .ok (pick, t)

theorem follows_of_applyAll {choices : List Choice} (h : s.applyAll rules choices = .ok t) :
    Follows rules s t := by
  induction choices generalizing s with
  | nil =>
    cases h
    exact .refl
  | cons first choices ih =>
    rw [applyAll] at h
    cases hfirst : s.apply rules first with
    | error e => simp [hfirst] at h
    | ok result =>
      simp only [hfirst] at h
      exact .head ⟨first, result.1, hfirst⟩ (ih h)

theorem Follows.pointer_le (h : Follows rules s t) : s.pointer ≤ t.pointer := by
  induction h with
  | refl => exact Nat.le_refl _
  | tail _ hlast ih =>
    obtain ⟨choice, pick, happly⟩ := hlast
    have hpointer := pointer_of_apply happly
    omega

theorem Follows.pointer_le_size (h : Follows rules s t) (hs : s.pointer ≤ rules.schedule.size) :
    t.pointer ≤ rules.schedule.size := by
  induction h with
  | refl => exact hs
  | tail _ hlast _ =>
    obtain ⟨choice, pick, happly⟩ := hlast
    have hpointer := pointer_of_apply happly
    have hlt := pointer_lt_of_apply happly
    omega

/-- The history is only added to. -/
theorem Follows.history (h : Follows rules s t) :
    t.picks.toList = s.picks.toList ++ t.picksFrom s.pointer := by
  induction h with
  | refl =>
    rw [picksFrom_pointer, List.append_nil]
  | tail hfirst hlast ih =>
    obtain ⟨choice, pick, happly⟩ := hlast
    obtain ⟨turn, -, -, -, hpicks⟩ := pick_of_apply happly
    rw [picksFrom_of_apply happly (Follows.pointer_le hfirst), hpicks, Array.toList_push, ih,
      List.append_assoc]

/-- One pick is made for each turn, in the order of the schedule. -/
theorem Follows.turns (h : Follows rules s t) (k : Nat) :
    (t.picksFrom s.pointer)[k]?.map (·.turn) =
      if s.pointer + k < t.pointer then
        (rules.schedule.turn? (s.pointer + k)).map fun turn => { turn with index := s.pointer + k }
      else none := by
  induction h with
  | refl =>
    simp [picksFrom_pointer]
  | @tail t u hfirst hlast ih =>
    obtain ⟨choice, pick, happly⟩ := hlast
    obtain ⟨turn, hturn, hpick, -, -⟩ := pick_of_apply happly
    have hle := Follows.pointer_le hfirst
    have hpointer := pointer_of_apply happly
    have hlength : (t.picksFrom s.pointer).length = t.pointer - s.pointer := List.length_drop
    rw [picksFrom_of_apply happly hle, hpointer]
    -- an earlier turn, the turn of the last pick, or one that has not come
    rcases Nat.lt_trichotomy (s.pointer + k) t.pointer with hold | hlast | hlater
    · rw [List.getElem?_append_left (by omega), ih, if_pos hold, if_pos (by omega)]
    · rw [List.getElem?_append_right (by omega), if_pos (by omega), hlast]
      have hturn' : rules.schedule.turn? t.pointer = some turn := hturn
      have hk : k - (t.picksFrom s.pointer).length = 0 := by omega
      simp [hk, hturn', hpick]
    · rw [if_neg (by omega), List.getElem?_eq_none (by simp; omega), Option.map_none]

section Exact

variable {G : Type} [AddCommGroup G] {value : Float → G}

theorem exactPoints_eq (hzero : value 0 = 0) (s : DraftState) (board : Board) (target : Nat) :
    s.exactPoints value board target =
      (s.picks.toList.map fun pick => value (pick.pointsFor board target)).sum := by
  unfold DraftState.exactPoints draftedPoints
  induction s.picks.toList with
  | nil => rfl
  | cons pick picks ih =>
    rw [List.map_cons, List.sum_cons, ← ih, List.filterMap_cons]
    unfold Pick.pointsFor
    cases pick.selection with
    | drafted id =>
      by_cases hteam : pick.turn.team = target
      · cases hplayer : board.player? id with
        | none => simp [hteam, hplayer, hzero]
        | some player => simp [hteam, hplayer]
      · simp [hteam, hzero]
    | benched id => simp [hzero]
    | passed => simp [hzero]

/-- In exact arithmetic picks earn the target team what its players gain in points. -/
theorem Follows.exactPoints (h : Follows rules s t) (hzero : value 0 = 0) (board : Board) (target : Nat) :
    ((t.picksFrom s.pointer).map fun pick => value (pick.pointsFor board target)).sum =
      t.exactPoints value board target - s.exactPoints value board target := by
  rw [exactPoints_eq hzero, exactPoints_eq hzero, h.history, List.map_append, List.sum_append,
    add_sub_cancel_left]

end Exact

end DraftState

/-- A policy plays a draft to its end, one candidate after the other. -/
inductive PlaysOut {σ : Type} (policy : Policy σ) (rules : Rules) :
    DraftState → σ → DraftState → σ → Prop where
  | finished {s : DraftState} {memory : σ} (hcomplete : s.candidates rules = []) :
      PlaysOut policy rules s memory s memory
  | choose {s t u : DraftState} {memory between after : σ} {first choice : Choice} {rest : List Choice}
      {pick : Pick} (hcandidates : s.candidates rules = first :: rest)
      (hchoose : policy.choose memory s (first :: rest) = (choice, between))
      (happly : s.apply rules choice = .ok (pick, t)) (hrest : PlaysOut policy rules t between u after) :
      PlaysOut policy rules s memory u after

section Rollout

variable {σ : Type} {policy : Policy σ} {rules : Rules} {s u : DraftState} {memory after : σ}

theorem PlaysOut.follows (h : PlaysOut policy rules s memory u after) : s.Follows rules u := by
  induction h with
  | finished _ => exact .refl
  | choose _ _ happly _ ih => exact .head ⟨_, _, happly⟩ ih

theorem PlaysOut.size_le (h : PlaysOut policy rules s memory u after) : rules.schedule.size ≤ u.pointer := by
  induction h with
  | finished hcomplete =>
    exact Array.getElem?_eq_none_iff.mp (DraftState.candidates_eq_nil_iff.mp hcomplete)
  | choose _ _ _ _ ih => exact ih

/-- A playout goes on with the count that it starts with. -/
theorem playsOut_of_rollout {target start : Nat} {accrued reward : Float} (hstart : start ≤ s.pointer)
    (haccrued : accrued = earned rules.board target (s.picksFrom start))
    (h : rollout policy rules target s accrued memory = (.ok reward, after)) :
    ∃ u, PlaysOut policy rules s memory u after ∧
      reward = earned rules.board target (u.picksFrom start) := by
  fun_induction rollout policy rules target s accrued memory with
  | case1 s accrued memory hnone =>
    cases h
    exact ⟨s, .finished hnone, haccrued⟩
  | case2 s accrued memory c cs hcs choice between hchoose e hadvance => cases h
  | case3 s accrued memory c cs hcs choice between hchoose points next hadvance ih =>
    obtain ⟨pick, happly, rfl⟩ := DraftState.apply_of_advance hadvance
    have hpointer := DraftState.pointer_of_apply happly
    have hcount : accrued + pick.pointsFor rules.board target =
        earned rules.board target (next.picksFrom start) := by
      rw [DraftState.picksFrom_of_apply happly hstart, earned_concat, haccrued]
    obtain ⟨u, hrest, hreward⟩ := ih (by omega) hcount h
    exact ⟨u, .choose hcs hchoose happly hrest, hreward⟩

end Rollout

namespace Search

variable {σ : Type} {s t : Search σ} {d e : Descent}

/-- A descent has made the choices on the path to its node, and counted the picks that they made. -/
structure Descent.Accounted (d : Descent) (s : Search σ) : Prop where
  node_lt : d.node < s.tree.size
  replays : s.state.applyAll s.rules (s.tree.path d.node) = .ok d.state
  accrued : d.accrued = earned s.rules.board s.turn.team (d.state.picksFrom s.state.pointer)

theorem accounted_root (h : s.tree.Linked) : Descent.Accounted ⟨0, s.state, 0⟩ s where
  node_lt := h.size_pos
  replays := by
    rw [h.path_root]
    rfl
  accrued := by
    simp only [DraftState.picksFrom_pointer]
    rfl

theorem apply_of_step {child : Nat} (h : s.step d child = .ok e) :
    ∃ pick, d.state.apply s.rules (s.tree.choiceOf child) = .ok (pick, e.state) ∧ e.node = child ∧
      e.accrued = d.accrued + pick.pointsFor s.rules.board s.turn.team := by
  unfold Search.step at h
  cases hadvance : d.state.advance s.rules s.turn.team (s.tree.choiceOf child) with
  | error error => rw [hadvance] at h; cases h
  | ok result =>
    obtain ⟨points, next⟩ := result
    obtain ⟨pick, happly, rfl⟩ := DraftState.apply_of_advance hadvance
    rw [hadvance] at h
    cases h
    exact ⟨pick, happly, rfl, rfl⟩

/-- A step to a child makes one pick and counts it. -/
theorem Descent.Accounted.step (hd : d.Accounted s) (h : s.tree.Linked) {child : Nat}
    (hchild : child ∈ s.tree.childrenOf d.node) (hstep : s.step d child = .ok e) : e.Accounted s := by
  obtain ⟨pick, happly, hnode, haccrued⟩ := apply_of_step hstep
  have hle := (DraftState.follows_of_applyAll hd.replays).pointer_le
  constructor
  case node_lt => rw [hnode]; exact h.child_lt_size hchild
  case replays =>
    rw [hnode, h.path_child hchild]
    exact DraftState.applyAll_concat hd.replays happly
  case accrued =>
    rw [haccrued, hd.accrued, DraftState.picksFrom_of_apply happly hle, earned_concat]

theorem Descent.Accounted.descend (hd : d.Accounted s) (h : s.tree.Linked) (hdescend : s.descend d = .ok e) :
    e.Accounted s := by
  fun_induction s.descend d with
  | case1 d hnone =>
    cases hdescend
    exact hd
  | case2 d child hchild error hstep => cases hdescend
  | case3 d child hchild next hstep ih =>
    exact ih (hd.step h (Tree.selectChild_mem hchild) hstep) hdescend

theorem Descent.Accounted.branch (hd : d.Accounted s) (choices : List Choice) :
    d.Accounted (s.branch d.node choices) where
  node_lt := by
    have hlt := hd.node_lt
    show d.node < (s.tree.addChildren d.node choices).size
    rw [Tree.size_addChildren]
    omega
  replays := by
    have hpath := Tree.path_addChildren hd.node_lt choices hd.node_lt
    show s.state.applyAll s.rules ((s.tree.addChildren d.node choices).path d.node) = .ok d.state
    rw [hpath, hd.replays]
  accrued := hd.accrued

/-- Growing the tree at a leaf makes one more pick and counts it, or none when the draft is complete. -/
theorem Descent.Accounted.grow (hd : d.Accounted s) (h : s.tree.Linked)
    (hleaf : s.tree.childrenOf d.node = []) (hgrow : s.grow d = .ok (e, t)) :
    e.Accounted t ∧ t.tree.Linked := by
  by_cases hopen : d.state.candidates s.rules = []
  · rw [grow_of_complete hleaf hopen] at hgrow
    cases hgrow
    exact ⟨hd, h⟩
  · rw [grow_of_open hd.node_lt hleaf hopen] at hgrow
    generalize d.state.candidates s.rules = choices at hopen hgrow
    have hlinked : (s.branch d.node choices).tree.Linked := h.addChildren hd.node_lt choices
    have hchild : s.tree.size ∈ (s.branch d.node choices).tree.childrenOf d.node :=
      Tree.selectChild_mem (Tree.selectChild_addChildren hd.node_lt hleaf hopen s.settings.exploration)
    cases hstep : (s.branch d.node choices).step d s.tree.size with
    | error error => rw [hstep] at hgrow; cases hgrow
    | ok next =>
      rw [hstep] at hgrow
      cases hgrow
      exact ⟨(hd.branch choices).step hlinked hchild hstep, hlinked⟩

theorem linked_of_simulate (h : s.tree.Linked) (hsimulate : s.simulate = .ok t) : t.tree.Linked := by
  obtain ⟨leaf, reward, next, hplayout, rfl⟩ := of_simulate hsimulate
  obtain ⟨d, e, grown, memory, hdescend, hgrow, -, -, rfl⟩ := of_playout hplayout
  obtain ⟨-, hleaf⟩ := selects_of_descend hdescend
  have hlinked := (((accounted_root h).descend h hdescend).grow h hleaf hgrow).2
  exact hlinked.backpropagate leaf reward

/-- Iterations keep a tree linked, whatever the policy does. -/
theorem iterate_linked {n : Nat} (h : s.tree.Linked) (hiterate : iterate n s = .ok t) :
    t.tree.Linked ∧ ∃ tree passThroughs memory, t = { s with tree, passThroughs, memory } := by
  induction n generalizing s with
  | zero =>
    cases hiterate
    exact ⟨h, _, _, _, rfl⟩
  | succ n ih =>
    unfold iterate at hiterate
    cases hsimulate : s.simulate with
    | error error => simp only [hsimulate] at hiterate; cases hiterate
    | ok next =>
      simp only [hsimulate] at hiterate
      obtain ⟨ht, tree, passThroughs, memory, rfl⟩ := ih (linked_of_simulate h hsimulate) hiterate
      obtain ⟨tree', passThroughs', memory', rfl⟩ := fixed_of_simulate hsimulate
      exact ⟨ht, _, _, _, rfl⟩

/-- The account of an iteration: the choices on the path to a leaf, and then those of the policy, lead to the end
of the draft. One pick is made for each turn since the root, and the reward is what these picks earn the team for
which is searched, each counted once and in order. -/
structure Accounts (s : Search σ) (leaf : Nat) (reward : Float) (after : Search σ) (final : DraftState) :
    Prop where
  recorded : s.simulate = .ok { after with tree := after.tree.backpropagate leaf reward }
  played : ∃ state, s.state.applyAll s.rules (after.tree.path leaf) = .ok state ∧
    PlaysOut s.policy s.rules state s.memory final after.memory
  complete : final.pointer = s.rules.schedule.size
  history : final.picks.toList = s.state.picks.toList ++ final.picksFrom s.state.pointer
  turns : ∀ k, (final.picksFrom s.state.pointer)[k]?.map (·.turn) =
    (s.rules.schedule.turn? (s.state.pointer + k)).map fun turn =>
      { turn with index := s.state.pointer + k }
  counted : reward = earned s.rules.board s.turn.team (final.picksFrom s.state.pointer)
  /-- Whatever exact numbers the points stand for, they add up to what the team gains. -/
  exact : ∀ {G : Type} [AddCommGroup G] (value : Float → G), value 0 = 0 →
    ((final.picksFrom s.state.pointer).map fun pick => value (pick.pointsFor s.rules.board s.turn.team)).sum =
      final.exactPoints value s.rules.board s.turn.team -
        s.state.exactPoints value s.rules.board s.turn.team

theorem accounts_of_playout (h : s.tree.Linked) (hopen : s.state.pointer ≤ s.rules.schedule.size) {leaf : Nat}
    {reward : Float} (hplayout : s.playout = .ok (leaf, reward, t)) :
    ∃ final, s.Accounts leaf reward t final := by
  obtain ⟨d, e, grown, memory, hdescend, hgrow, hrollout, rfl, rfl⟩ := of_playout hplayout
  obtain ⟨-, hleaf⟩ := selects_of_descend hdescend
  obtain ⟨he, -⟩ := ((accounted_root h).descend h hdescend).grow h hleaf hgrow
  obtain ⟨tree, passThroughs, rfl⟩ := fixed_of_grow hgrow
  have hpath := DraftState.follows_of_applyAll he.replays
  obtain ⟨final, hplays, hreward⟩ := playsOut_of_rollout hpath.pointer_le he.accrued hrollout
  have hfollows : s.state.Follows s.rules final := hpath.trans hplays.follows
  have hsize : final.pointer = s.rules.schedule.size :=
    Nat.le_antisymm (hfollows.pointer_le_size hopen) hplays.size_le
  refine ⟨final, ?_, ⟨e.state, he.replays, hplays⟩, hsize, hfollows.history, fun k => ?_, hreward, ?_⟩
  · unfold Search.simulate
    rw [hplayout]
    rfl
  · rw [hfollows.turns k, hsize]
    split
    · rfl
    · next hge =>
      have hnone : s.rules.schedule.turn? (s.state.pointer + k) = none :=
        Array.getElem?_eq_none (Nat.le_of_not_lt hge)
      rw [hnone, Option.map_none]
  · exact fun value hzero => hfollows.exactPoints hzero s.rules.board s.turn.team

end Search

/-- In every iteration of every search the recorded reward counts each pick from the root to the end of the draft
once, whether it was made on the way down the tree, by the step to a new child or by the policy. Where every team
has a roster, a policy that keeps to the candidates brings every iteration to its end. -/
theorem reward_counts_each_pick {rules : Rules} {state : DraftState} {σ : Type} {policy : Policy σ}
    {settings : Settings} {memory : σ} {s : Search σ}
    (hstart : Search.start rules state settings policy memory = .ok s) (n : Nat) :
    (∀ rows, Board.ofRows rows = .ok rules.board → state.Seats rules.schedule → policy.Legal →
      ∃ t result, Search.iterate n s = .ok t ∧ t.playout = .ok result) ∧
    ∀ t, Search.iterate n s = .ok t →
      t.rules = rules ∧ t.state = state ∧ state.onClock? rules.schedule = some t.turn ∧
      ∀ leaf reward after, t.playout = .ok (leaf, reward, after) →
        ∃ final, t.Accounts leaf reward after final := by
  constructor
  · intro rows hboard hseats hpolicy
    obtain ⟨⟨stateAt, hcharted⟩, -, -, hsame⟩ :=
      Search.charted_start (Board.indexed_of_ofRows hboard) hseats hstart
    rw [← hsame] at hpolicy
    obtain ⟨t, stateAt', hiterate, ht, hcontinues⟩ := hcharted.iterate hpolicy n
    rw [← hcontinues.policy] at hpolicy
    obtain ⟨next, -, hsimulate, -⟩ := ht.simulate hpolicy
    obtain ⟨leaf, reward, after, hplayout, -⟩ := Search.of_simulate hsimulate
    exact ⟨t, _, hiterate, hplayout⟩
  · intro t hiterate
    obtain ⟨turn, hturn, rfl⟩ := Search.of_start hstart
    have hlinked := Tree.linked_singleton.addChildren Nat.one_pos (state.candidates rules)
    obtain ⟨ht, tree, passThroughs, memory', rfl⟩ := Search.iterate_linked hlinked hiterate
    have hlt := (Array.getElem?_eq_some_iff.mp hturn).1
    refine ⟨rfl, rfl, hturn, fun leaf reward after hplayout => ?_⟩
    exact Search.accounts_of_playout ht (Nat.le_of_lt hlt) hplayout

theorem reward_counts_each_pick_of_two_teams :
    ∃ board s, Board.ofRows [⟨2, "QB A", "QB", "10"⟩, ⟨3, "RB B", "RB", "8"⟩] = .ok board ∧
      (DraftState.start 2 board.size).Seats (.snake 2 3) ∧ Policy.uniform.Legal ∧
      Search.start ⟨board, .snake 2 3, .standard⟩ (.start 2 board.size) .small .uniform (.ofSeed 7) = .ok s ∧
      ∃ t leaf reward after final, Search.iterate 20 s = .ok t ∧ t.playout = .ok (leaf, reward, after) ∧
        t.Accounts leaf reward after final := by
  obtain ⟨board, s, hboard, hseats, hstart⟩ := Search.exists_start_of_two_teams
  obtain ⟨hends, haccounts⟩ := reward_counts_each_pick hstart 20
  obtain ⟨t, ⟨leaf, reward, after⟩, hiterate, hplayout⟩ := hends _ hboard hseats Policy.uniform_legal
  obtain ⟨final, hfinal⟩ := (haccounts t hiterate).2.2.2 leaf reward after hplayout
  exact ⟨board, s, hboard, hseats, Policy.uniform_legal, hstart, t, leaf, reward, after, final, hiterate,
    hplayout, hfinal⟩

end SnakeDraft
