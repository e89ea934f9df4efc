import Mathlib.Data.Finset.Card
import Mathlib.Data.Finset.Range
import SnakeDraft.Proofs.Search.Recommendation
import SnakeDraft.Proofs.Search.Selection

/-!
The tree of a search and the draft that it explores. Nodes hold no states, but the choices on the path to a
node can be made one after the other from the state at the root, and the children of a node are the
candidates of the state that this leads to (`Search.Mirrors`). Every search starts so, and every iteration
keeps it so (`Search.Charted.simulate`).
-/

namespace SnakeDraft

namespace DraftState

variable {s t u : DraftState} {rules : Rules}

/-- The state after some choices, made one after the other. -/
def applyAll (s : DraftState) (rules : Rules) : List Choice → Except PickError DraftState
  | [] => .ok s
  | choice :: choices =>
    match s.apply rules choice with
    | .error e => .error e
    | .ok (_, t) => t.applyAll rules choices

theorem applyAll_concat {choices : List Choice} {choice : Choice} {pick : Pick}
    (h : s.applyAll rules choices = .ok t) (hlast : t.apply rules choice = .ok (pick, u)) :
    s.applyAll rules (choices ++ [choice]) = .ok u := by
  induction choices generalizing s with
  | nil =>
    cases h
    simp only [List.nil_append, applyAll, hlast]
  | cons first choices ih =>
    rw [applyAll] at h
    rw [List.cons_append, applyAll]
    cases hfirst : s.apply rules first with
    | error e => simp [hfirst] at h
    | ok result =>
      simp only [hfirst] at h ⊢
      exact ih h

theorem pointer_of_applyAll {choices : List Choice} (h : s.applyAll rules choices = .ok t) :
    t.pointer = s.pointer + choices.length := by
  induction choices generalizing s with
  | nil =>
    cases h
    rfl
  | cons first choices ih =>
    rw [applyAll] at h
    cases hfirst : s.apply rules first with
    | error e => simp [hfirst] at h
    | ok result =>
      simp only [hfirst] at h
      have hpointer := pointer_of_apply hfirst
      have hrest := ih h
      rw [List.length_cons]
      omega

end DraftState

namespace Tree

variable {t : Tree}

/-- The nodes whose only child is a pass. -/
def passNodes (t : Tree) : Finset Nat :=
  (Finset.range t.size).filter fun id => (t.childrenOf id).map t.choice? = [some .pass]

@[simp] theorem passNodes_backpropagate (t : Tree) (leaf : Nat) (reward : Float) :
    (t.backpropagate leaf reward).passNodes = t.passNodes := by
  have hchoice : (t.backpropagate leaf reward).choice? = t.choice? :=
    funext fun id => choice?_congr (t.origin?_backpropagate leaf reward id)
  unfold passNodes
  rw [size_backpropagate]
  exact Finset.filter_congr fun id _ => by rw [childrenOf_backpropagate, hchoice]

theorem choices_addChildren {node : Nat} (choices : List Choice) (hnode : node < t.size)
    (hleaf : t.childrenOf node = []) :
    ((t.addChildren node choices).childrenOf node).map (t.addChildren node choices).choice? =
      choices.map some := by
  rw [childrenOf_addChildren choices hnode, if_pos rfl, hleaf, List.nil_append]
  refine List.ext_getElem (by simp) fun k hk hk' => ?_
  simp only [List.length_map] at hk'
  have horigin : (t.addChildren node choices).origin? (t.size + k) =
      some (some node, some choices[k], t.depthOf node + 1) := by
    rw [origin?_addChildren choices hnode, if_neg (by omega), Nat.add_sub_cancel_left,
      List.getElem?_eq_getElem hk']
    rfl
  rw [List.getElem_map, List.getElem_range', Nat.one_mul, List.getElem_map,
    choice?_of_origin horigin]

/-- A leaf that gets its children is one pass node more exactly if its only child is a pass. -/
theorem Linked.card_passNodes_addChildren (h : t.Linked) {node : Nat} (hnode : node < t.size)
    (hleaf : t.childrenOf node = []) (choices : List Choice) :
    (t.addChildren node choices).passNodes.card =
      t.passNodes.card + if choices == [.pass] then 1 else 0 := by
  have hchildren : ∀ id ≠ node, (t.addChildren node choices).childrenOf id = t.childrenOf id := by
    intro id hne
    rw [childrenOf_addChildren choices hnode, if_neg hne]
  have hother : ∀ id ≠ node,
      ((t.addChildren node choices).childrenOf id).map (t.addChildren node choices).choice? =
        (t.childrenOf id).map t.choice? := by
    intro id hne
    rw [hchildren id hne]
    refine List.map_congr_left fun child hchild => choice?_congr ?_
    rw [origin?_addChildren choices hnode, if_pos (h.child_lt_size hchild)]
  have hnot : node ∉ t.passNodes := by
    simp [passNodes, hleaf]
  have hmem : ∀ id, id ∈ (t.addChildren node choices).passNodes ↔
      id = node ∧ choices = [.pass] ∨ id ∈ t.passNodes := by
    intro id
    unfold passNodes
    simp only [Finset.mem_filter, Finset.mem_range, size_addChildren]
    by_cases hid : id = node
    · subst hid
      have hpass : choices.map some = [some Choice.pass] ↔ choices = [.pass] := by
        constructor
        · intro heq
          exact List.map_injective_iff.mpr (Option.some_injective _) heq
        · rintro rfl
          rfl
      rw [choices_addChildren choices hnode hleaf, hpass, hleaf]
      simp
      omega
    · rw [hother id hid]
      constructor
      · rintro ⟨-, hpass⟩
        obtain ⟨child, hchild⟩ : ∃ child, child ∈ t.childrenOf id := by
          refine List.exists_mem_of_ne_nil _ fun hnil => ?_
          simp [hnil] at hpass
        exact .inr ⟨lt_size_of_mem_childrenOf hchild, hpass⟩
      · rintro (⟨heq, -⟩ | ⟨hlt, hpass⟩)
        · exact absurd heq hid
        · exact ⟨by omega, hpass⟩
  by_cases hpass : choices = [.pass]
  · have hinsert : (t.addChildren node choices).passNodes = insert node t.passNodes := by
      ext id
      rw [hmem, Finset.mem_insert]
      simp [hpass]
    rw [hinsert, Finset.card_insert_of_notMem hnot]
    simp [hpass]
  · have hsame : (t.addChildren node choices).passNodes = t.passNodes := by
      ext id
      rw [hmem]
      simp [hpass]
    rw [hsame]
    simp [hpass]

end Tree

namespace Search

variable {σ : Type} {s : Search σ} {stateAt : Nat → DraftState}

/-- The tree of a search says the same as the draft: paths can be replayed from the root, an expanded node
has one child for each candidate at the end of its path, in their order, and the pass nodes are counted. -/
structure Mirrors (s : Search σ) : Prop where
  replays : ∀ id < s.tree.size, ∃ state,
    s.state.applyAll s.rules (s.tree.path id) = .ok state ∧
      (s.tree.childrenOf id ≠ [] →
        (s.tree.childrenOf id).map s.tree.choice? = (state.candidates s.rules).map some)
  depth_eq : ∀ id < s.tree.size, s.tree.depthOf id = (s.tree.path id).length
  depth_le : ∀ id < s.tree.size, s.tree.depthOf id ≤ s.rules.schedule.size - s.state.pointer
  passThroughs : s.passThroughs = s.tree.passNodes.card

/-- Nodes stand for states, parents and children agree, and the pass nodes are counted. -/
structure Charted (s : Search σ) (stateAt : Nat → DraftState) : Prop where
  explores : s.Explores stateAt
  linked : s.tree.Linked
  passThroughs : s.passThroughs = s.tree.passNodes.card

theorem Charted.backpropagate (h : s.Charted stateAt) (leaf : Nat) (reward : Float) (memory : σ) :
    Charted { s with tree := s.tree.backpropagate leaf reward, memory } stateAt := by
  refine ⟨h.explores.backpropagate leaf reward memory, h.linked.backpropagate leaf reward, ?_⟩
  simpa using h.passThroughs

theorem Charted.branch (h : s.Charted stateAt) {node : Nat} (hnode : node < s.tree.size)
    (hleaf : s.tree.childrenOf node = []) :
    (s.branch node ((stateAt node).candidates s.rules)).Charted
      (extendStates stateAt s.tree.size s.rules node ((stateAt node).candidates s.rules)) := by
  refine ⟨h.explores.branch hnode hleaf, h.linked.addChildren hnode _, ?_⟩
  show s.passThroughs + _ = (s.tree.addChildren node _).passNodes.card
  rw [h.linked.card_passNodes_addChildren hnode hleaf, h.passThroughs]

theorem Charted.simulate (h : s.Charted stateAt) (hpolicy : s.policy.Legal) :
    ∃ t stateAt', s.simulate = .ok t ∧ t.Charted stateAt' ∧ s.Continues t := by
  obtain ⟨t, _, hsimulate, -, hcontinues⟩ := h.explores.simulate hpolicy
  refine ⟨t, ?_⟩
  obtain ⟨leaf, reward, memory, hlt, hleaf, -, ⟨-, hended⟩ | ⟨-, hbranched⟩⟩ :=
    h.explores.simulate_cases hpolicy
  · cases hsimulate.symm.trans hended
    exact ⟨stateAt, hsimulate, h.backpropagate leaf reward memory, hcontinues⟩
  · cases hsimulate.symm.trans hbranched
    exact ⟨_, hsimulate, (h.branch hlt hleaf).backpropagate s.tree.size reward memory, hcontinues⟩

theorem Charted.iterate (h : s.Charted stateAt) (hpolicy : s.policy.Legal) (n : Nat) :
    ∃ t stateAt', iterate n s = .ok t ∧ t.Charted stateAt' ∧ s.Continues t := by
  apply iterate_of_step (fun _ t stateAt => t.Charted stateAt) _ h hpolicy
  exact fun _ _ t _ ht hlegal => ht.simulate hlegal

/-- The path to a node leads to the state that the node stands for. -/
theorem Charted.applyAll_path (h : s.Charted stateAt) {id : Nat} (hid : id < s.tree.size) :
    s.state.applyAll s.rules (s.tree.path id) = .ok (stateAt id) := by
  refine h.linked.induction
    (motive := fun id => s.state.applyAll s.rules (s.tree.path id) = .ok (stateAt id)) ?_ ?_ id hid
  · rw [h.linked.path_root, h.explores.root]
    rfl
  · intro parent id hchild ih
    obtain ⟨pick, happly⟩ := h.explores.edge parent id hchild
    rw [h.linked.path_child hchild]
    exact DraftState.applyAll_concat ih happly

/-- No node stands for a draft that has gone on past its schedule. -/
theorem Charted.pointer_le (h : s.Charted stateAt) {id : Nat} (hid : id < s.tree.size) :
    (stateAt id).pointer ≤ s.rules.schedule.size := by
  refine h.linked.induction
    (motive := fun id => (stateAt id).pointer ≤ s.rules.schedule.size) ?_ ?_ id hid
  · rw [h.explores.root]
    exact Nat.le_of_lt (Array.getElem?_eq_some_iff.mp h.explores.turn).1
  · intro parent id hchild _
    obtain ⟨pick, happly⟩ := h.explores.edge parent id hchild
    have hlt := DraftState.pointer_lt_of_apply happly
    have hpointer := DraftState.pointer_of_apply happly
    omega

theorem Charted.mirrors (h : s.Charted stateAt) : s.Mirrors := by
  constructor
  case replays =>
    intro id hid
    refine ⟨stateAt id, h.applyAll_path hid, fun hexpanded => ?_⟩
    rw [← h.explores.choices id hexpanded, List.map_map]
    exact List.map_congr_left fun child hchild => h.linked.choice?_child hchild
  case depth_eq => exact fun id hid => h.linked.depth_eq_length_path hid
  case depth_le =>
    intro id hid
    have hpointer := DraftState.pointer_of_applyAll (h.applyAll_path hid)
    have hle := h.pointer_le hid
    rw [h.linked.depth_eq_length_path hid]
    omega
  case passThroughs => exact h.passThroughs

theorem charted_alone {rules : Rules} {state : DraftState} {turn : Turn} (hboard : rules.board.Indexed)
    (hseats : state.Seats rules.schedule) (hturn : state.onClock? rules.schedule = some turn)
    (settings : Settings) (policy : Policy σ) (memory : σ) :
    (alone rules state turn settings policy memory).Charted fun _ => state := by
  refine ⟨explores_alone hboard hseats hturn settings policy memory, Tree.linked_singleton, ?_⟩
  have hnone : Tree.singleton.passNodes = ∅ := by
    decide
  show 0 = Tree.singleton.passNodes.card
  rw [hnone, Finset.card_empty]

theorem charted_start {rules : Rules} {state : DraftState} (hboard : rules.board.Indexed)
    (hseats : state.Seats rules.schedule) {settings : Settings} {policy : Policy σ} {memory : σ}
    (hstart : start rules state settings policy memory = .ok s) :
    (∃ stateAt, s.Charted stateAt) ∧ s.rules = rules ∧ s.state = state ∧ s.policy = policy := by
  obtain ⟨turn, hturn, rfl⟩ := of_start hstart
  have halone := charted_alone hboard hseats hturn settings policy memory
  exact ⟨⟨_, halone.branch halone.explores.size_pos rfl⟩, rfl, rfl, rfl⟩

theorem exists_start_of_two_teams :
    ∃ board s, Board.ofRows [⟨2, "QB A", "QB", "10"⟩, ⟨3, "RB B", "RB", "8"⟩] = .ok board ∧
      (DraftState.start 2 board.size).Seats (.snake 2 3) ∧
      start ⟨board, .snake 2 3, .standard⟩ (.start 2 board.size) .small .uniform (.ofSeed 7) = .ok s := by
  obtain ⟨board, hboard⟩ := exists_board_of_two_players
  have hseats : (DraftState.start 2 board.size).Seats (.snake 2 3) := by
    show ∀ turn ∈ (Schedule.snake 2 3).turns, turn.team < 2
    decide
  have hturn : (DraftState.start 2 board.size).onClock? (.snake 2 3) = some ⟨0, 0, 0⟩ := by
    show (Schedule.snake 2 3).turn? 0 = _
    decide
  exact ⟨board, _, hboard, hseats, start_eq hturn .small .uniform (.ofSeed 7)⟩

end Search

/-- After any number of iterations the tree of a search mirrors the draft that is searched. -/
theorem search_mirrors_draft {rows : List Row} {board : Board} (hboard : Board.ofRows rows = .ok board)
    (schedule : Schedule) (requirements : Requirements) {state : DraftState}
    (hseats : state.Seats schedule) {σ : Type} {policy : Policy σ} (hpolicy : policy.Legal)
    {settings : Settings} {memory : σ} {s : Search σ}
    (hstart : Search.start ⟨board, schedule, requirements⟩ state settings policy memory = .ok s)
    (n : Nat) :
    ∃ t, Search.iterate n s = .ok t ∧ t.rules = ⟨board, schedule, requirements⟩ ∧ t.state = state ∧
      t.Mirrors := by
  have hindexed : Board.Indexed (Rules.mk board schedule requirements).board :=
    Board.indexed_of_ofRows hboard
  obtain ⟨⟨stateAt, hcharted⟩, hrules, hstate, hsame⟩ := Search.charted_start hindexed hseats hstart
  rw [← hsame] at hpolicy
  obtain ⟨t, stateAt', hiterate, ht, hcontinues⟩ := hcharted.iterate hpolicy n
  exact ⟨t, hiterate, hcontinues.rules.trans hrules, hcontinues.state.trans hstate, ht.mirrors⟩

theorem search_mirrors_draft_of_two_teams :
    ∃ board s, Board.ofRows [⟨2, "QB A", "QB", "10"⟩, ⟨3, "RB B", "RB", "8"⟩] = .ok board ∧
      (DraftState.start 2 board.size).Seats (.snake 2 3) ∧ Policy.uniform.Legal ∧
      Search.start ⟨board, .snake 2 3, .standard⟩ (.start 2 board.size) .small .uniform (.ofSeed 7) = .ok s ∧
      ∃ t, Search.iterate 20 s = .ok t ∧ t.Mirrors := by
  obtain ⟨board, s, hboard, hseats, hstart⟩ := Search.exists_start_of_two_teams
  obtain ⟨t, hiterate, -, -, ht⟩ := search_mirrors_draft hboard (.snake 2 3) .standard hseats
    Policy.uniform_legal hstart 20
  exact ⟨board, s, hboard, hseats, Policy.uniform_legal, hstart, t, hiterate, ht⟩

end SnakeDraft
