import SnakeDraft.Proofs.Search.Selection

/-!
Iterations of a search. The descent ends at a leaf. There the draft is complete and the reward is recorded
at this node, or the node gets its children and the reward is recorded at the first of them;
`Search.Explores.simulate_cases` says that an iteration succeeds and does one or the other. What one
iteration keeps, any number of them keeps (`Search.iterate_of_step`).
-/

namespace SnakeDraft.Search

variable {σ : Type} {s : Search σ} {stateAt : Nat → DraftState}

/-- The search with children below a leaf, one for each of these choices. -/
def branch (s : Search σ) (node : Nat) (choices : List Choice) : Search σ :=
  { s with
    tree := s.tree.addChildren node choices
    passThroughs := s.passThroughs + if choices == [.pass] then 1 else 0 }

theorem expand_of_open {node : Nat} {state : DraftState} (hleaf : s.tree.childrenOf node = [])
    (hopen : state.candidates s.rules ≠ []) :
    s.expand node state =
      (.expanded (state.candidates s.rules), s.branch node (state.candidates s.rules)) := by
  obtain ⟨first, rest, hchoices⟩ := List.exists_cons_of_ne_nil hopen
  unfold Search.expand Tree.expand
  simp only [hleaf, hchoices]
  rfl

theorem grow_of_complete {d : Descent} (hleaf : s.tree.childrenOf d.node = [])
    (hcomplete : d.state.candidates s.rules = []) : s.grow d = .ok (d, s) := by
  have hexpand : s.expand d.node d.state = (.terminal, s) := by
    unfold Search.expand Tree.expand
    simp only [hleaf, hcomplete]
    rfl
  unfold Search.grow
  rw [hexpand]

/-- Where the draft is open, a leaf branches and the descent goes on to its first child. -/
theorem grow_of_open {d : Descent} (hnode : d.node < s.tree.size) (hleaf : s.tree.childrenOf d.node = [])
    (hopen : d.state.candidates s.rules ≠ []) :
    s.grow d = ((s.branch d.node (d.state.candidates s.rules)).step d s.tree.size).map
      fun e => (e, s.branch d.node (d.state.candidates s.rules)) := by
  have hselect : (s.branch d.node (d.state.candidates s.rules)).tree.selectChild d.node
      s.settings.exploration = some s.tree.size := Tree.selectChild_addChildren hnode hleaf hopen _
  have hbranch : (s.branch d.node (d.state.candidates s.rules)).settings = s.settings := rfl
  unfold Search.grow
  simp only [expand_of_open hleaf hopen, hbranch, hselect]

theorem search_of_grow {d e : Descent} {t : Search σ} (h : s.grow d = .ok (e, t)) :
    t = (s.expand d.node d.state).2 := by
  unfold Search.grow at h
  generalize s.expand d.node d.state = result at h ⊢
  obtain ⟨expansion, next⟩ := result
  cases expansion with
  | alreadyExpanded => cases h; rfl
  | terminal => cases h; rfl
  | expanded choices =>
    simp only at h
    cases hselect : next.tree.selectChild d.node next.settings.exploration with
    | none => rw [hselect] at h; cases h; rfl
    | some child =>
      rw [hselect] at h
      cases hstep : next.step d child with
      | error error => simp only [hstep] at h; cases h
      | ok e => simp only [hstep] at h; cases h; rfl

theorem fixed_of_grow {d e : Descent} {t : Search σ} (h : s.grow d = .ok (e, t)) :
    ∃ tree passThroughs, t = { s with tree, passThroughs } :=
  ⟨_, _, search_of_grow h⟩

/-- The parts of a playout that comes to its end. -/
theorem of_playout {leaf : Nat} {reward : Float} {t : Search σ} (h : s.playout = .ok (leaf, reward, t)) :
    ∃ d e grown memory, s.descend ⟨0, s.state, 0⟩ = .ok d ∧ s.grow d = .ok (e, grown) ∧
      rollout grown.policy grown.rules grown.turn.team e.state e.accrued grown.memory = (.ok reward, memory) ∧
      leaf = e.node ∧ t = { grown with memory } := by
  unfold Search.playout at h
  cases hdescend : s.descend ⟨0, s.state, 0⟩ with
  | error error => simp only [hdescend] at h; cases h
  | ok d =>
    cases hgrow : s.grow d with
    | error error => simp only [hdescend, hgrow] at h; cases h
    | ok result =>
      obtain ⟨e, grown⟩ := result
      simp only [hdescend, hgrow] at h
      rcases hrollout : rollout grown.policy grown.rules grown.turn.team e.state e.accrued grown.memory with
        ⟨error | points, memory⟩
      · simp only [hrollout] at h
        cases h
      · simp only [hrollout] at h
        cases h
        exact ⟨d, e, grown, memory, rfl, hgrow, hrollout, rfl, rfl⟩

theorem of_simulate {t : Search σ} (h : s.simulate = .ok t) :
    ∃ leaf reward next, s.playout = .ok (leaf, reward, next) ∧
      t = { next with tree := next.tree.backpropagate leaf reward } := by
  unfold Search.simulate at h
  cases hplayout : s.playout with
  | error error => rw [hplayout] at h; cases h
  | ok result =>
    rw [hplayout] at h
    cases h
    exact ⟨_, _, _, rfl, rfl⟩

/-- A playout changes the tree, the number of pass nodes and the policy's memory, and nothing else. -/
theorem fixed_of_playout {leaf : Nat} {reward : Float} {t : Search σ}
    (h : s.playout = .ok (leaf, reward, t)) :
    ∃ tree passThroughs memory, t = { s with tree, passThroughs, memory } := by
  obtain ⟨d, e, grown, memory, -, hgrow, -, -, rfl⟩ := of_playout h
  obtain ⟨tree, passThroughs, rfl⟩ := fixed_of_grow hgrow
  exact ⟨_, _, _, rfl⟩

theorem fixed_of_simulate {t : Search σ} (h : s.simulate = .ok t) :
    ∃ tree passThroughs memory, t = { s with tree, passThroughs, memory } := by
  obtain ⟨leaf, reward, next, hplayout, rfl⟩ := of_simulate h
  obtain ⟨tree, passThroughs, memory, rfl⟩ := fixed_of_playout hplayout
  exact ⟨_, _, _, rfl⟩

theorem Explores.branch (h : s.Explores stateAt) {node : Nat} (hnode : node < s.tree.size)
    (hleaf : s.tree.childrenOf node = []) :
    (s.branch node ((stateAt node).candidates s.rules)).Explores
      (extendStates stateAt s.tree.size s.rules node ((stateAt node).candidates s.rules)) :=
  h.addChildren hnode hleaf _

theorem Explores.grow_of_open (h : s.Explores stateAt) {d : Descent} (hd : d.At s stateAt)
    (hleaf : s.tree.childrenOf d.node = []) (hopen : (stateAt d.node).candidates s.rules ≠ []) :
    ∃ e, s.grow d = .ok (e, s.branch d.node ((stateAt d.node).candidates s.rules)) ∧
      e.node = s.tree.size ∧ e.At (s.branch d.node ((stateAt d.node).candidates s.rules))
        (extendStates stateAt s.tree.size s.rules d.node ((stateAt d.node).candidates s.rules)) := by
  have hexplores := h.branch hd.node_lt hleaf
  have hgrow := Search.grow_of_open hd.node_lt hleaf (by rwa [hd.state])
  rw [hd.state] at hgrow
  generalize (stateAt d.node).candidates s.rules = choices at hopen hexplores hgrow ⊢
  have hd' : d.At (s.branch d.node choices)
      (extendStates stateAt s.tree.size s.rules d.node choices) := by
    refine ⟨?_, hd.state.trans (extendStates_of_lt hd.node_lt).symm⟩
    have hlt := hd.node_lt
    show d.node < (s.tree.addChildren d.node choices).size
    rw [Tree.size_addChildren]
    omega
  have hchild : s.tree.size ∈ (s.branch d.node choices).tree.childrenOf d.node :=
    Tree.selectChild_mem (Tree.selectChild_addChildren hd.node_lt hleaf hopen s.settings.exploration)
  obtain ⟨e, hstep, he⟩ := hexplores.step hd' hchild
  refine ⟨e, ?_, node_of_step hstep, he⟩
  rw [hgrow, hstep]
  rfl

/-- What an iteration does. The descent ends at a leaf; the reward is recorded there when the draft is
complete, and otherwise at the first of the children that the leaf gets. -/
theorem Explores.simulate_cases (h : s.Explores stateAt) (hpolicy : s.policy.Legal) :
    ∃ leaf reward memory, leaf < s.tree.size ∧ s.tree.childrenOf leaf = [] ∧
      Relation.ReflTransGen s.Selects 0 leaf ∧
      ((stateAt leaf).candidates s.rules = [] ∧
        s.simulate = .ok { s with tree := s.tree.backpropagate leaf reward, memory } ∨
      (stateAt leaf).candidates s.rules ≠ [] ∧
        let t := s.branch leaf ((stateAt leaf).candidates s.rules)
        s.simulate = .ok { t with tree := t.tree.backpropagate s.tree.size reward, memory }) := by
  have hroot : Descent.At ⟨0, s.state, 0⟩ s stateAt := ⟨h.size_pos, h.root.symm⟩
  obtain ⟨d, hdescend, hd⟩ := h.descend hroot
  obtain ⟨hpath, hleaf⟩ := selects_of_descend hdescend
  -- once the tree has grown, the playout and the recording are the same in both cases
  have hplay : ∀ {e : Descent} {t : Search σ} {stateAt' : Nat → DraftState}, s.grow d = .ok (e, t) →
      t.Explores stateAt' → e.At t stateAt' → t.policy = s.policy →
      ∃ reward memory, s.simulate = .ok { t with tree := t.tree.backpropagate e.node reward, memory } := by
    intro e t stateAt' hgrow hexplores he hsame
    have hseats : e.state.Seats t.rules.schedule := by
      rw [he.state]
      exact hexplores.seats e.node he.node_lt
    rw [← hsame] at hpolicy
    obtain ⟨reward, memory, hrollout⟩ :=
      rollout_ok hpolicy hexplores.board t.turn.team hseats e.accrued t.memory
    refine ⟨reward, memory, ?_⟩
    unfold Search.simulate Search.playout
    simp only [hdescend, hgrow, hrollout]
    rfl
  by_cases hopen : (stateAt d.node).candidates s.rules = []
  · have hcomplete : d.state.candidates s.rules = [] := by rw [hd.state, hopen]
    obtain ⟨reward, memory, hsimulate⟩ := hplay (grow_of_complete hleaf hcomplete) h hd rfl
    exact ⟨d.node, reward, memory, hd.node_lt, hleaf, hpath, .inl ⟨hopen, hsimulate⟩⟩
  · obtain ⟨e, hgrow, hnode, he⟩ := h.grow_of_open hd hleaf hopen
    obtain ⟨reward, memory, hsimulate⟩ := hplay hgrow (h.branch hd.node_lt hleaf) he rfl
    rw [hnode] at hsimulate
    exact ⟨d.node, reward, memory, hd.node_lt, hleaf, hpath, .inr ⟨hopen, hsimulate⟩⟩

theorem Explores.simulate (h : s.Explores stateAt) (hpolicy : s.policy.Legal) :
    ∃ t stateAt', s.simulate = .ok t ∧ t.Explores stateAt' ∧ s.Continues t := by
  obtain ⟨leaf, reward, memory, hlt, hleaf, -, ⟨-, hended⟩ | ⟨-, hbranched⟩⟩ :=
    h.simulate_cases hpolicy
  · refine ⟨_, stateAt, hended, h.backpropagate leaf reward memory, rfl, rfl, rfl, rfl, rfl, ?_⟩
    intro id _
    exact s.tree.childrenOf_backpropagate leaf reward id
  · refine ⟨_, _, hbranched, (h.branch hlt hleaf).backpropagate s.tree.size reward memory,
      rfl, rfl, rfl, rfl, rfl, ?_⟩
    intro id hid
    have hne : id ≠ leaf := fun heq => hid (heq ▸ hleaf)
    have hsame := Tree.childrenOf_addChildren ((stateAt leaf).candidates s.rules) hlt id
    exact (Tree.childrenOf_backpropagate _ _ _ _).trans (hsame.trans (if_neg hne))

/-- What each iteration carries on holds after any number of them. -/
theorem iterate_of_step (Inv : Nat → Search σ → (Nat → DraftState) → Prop) {n : Nat}
    (hstep : ∀ k < n, ∀ t stateAt, Inv k t stateAt → t.policy.Legal →
      ∃ next nextAt, t.simulate = .ok next ∧ Inv (k + 1) next nextAt ∧ t.Continues next)
    (h : Inv 0 s stateAt) (hpolicy : s.policy.Legal) :
    ∃ t stateAt', iterate n s = .ok t ∧ Inv n t stateAt' ∧ s.Continues t := by
  have hrest : ∀ m k t stateAt, k + m = n → Inv k t stateAt → s.Continues t →
      ∃ u stateAt', iterate m t = .ok u ∧ Inv n u stateAt' ∧ s.Continues u := by
    intro m
    induction m with
    | zero =>
      rintro k t stateAt rfl ht hcontinues
      exact ⟨t, stateAt, rfl, ht, hcontinues⟩
    | succ m ih =>
      intro k t stateAt hkm ht hcontinues
      have hlegal : t.policy.Legal := hcontinues.policy ▸ hpolicy
      obtain ⟨next, nextAt, hsimulate, hnext, hmore⟩ := hstep k (by omega) t stateAt ht hlegal
      obtain ⟨u, stateAt', hiterate, hu, hlast⟩ :=
        ih (k + 1) next nextAt (by omega) hnext (hcontinues.trans hmore)
      refine ⟨u, stateAt', ?_, hu, hlast⟩
      unfold Search.iterate
      rw [hsimulate]
      exact hiterate
  exact hrest n 0 s stateAt (Nat.zero_add n) h (.refl s)

theorem Explores.iterate (h : s.Explores stateAt) (hpolicy : s.policy.Legal) (n : Nat) :
    ∃ t stateAt', iterate n s = .ok t ∧ t.Explores stateAt' ∧ s.Continues t := by
  apply iterate_of_step (fun _ t stateAt => t.Explores stateAt) _ h hpolicy
  exact fun _ _ t _ ht hlegal => ht.simulate hlegal

/-- The search whose tree is the root alone. -/
def alone (rules : Rules) (state : DraftState) (turn : Turn) (settings : Settings) (policy : Policy σ)
    (memory : σ) : Search σ :=
  ⟨rules, state, turn, settings, policy, memory, .singleton, 0⟩

section Start

variable {rules : Rules} {state : DraftState} {turn : Turn}

theorem explores_alone (hboard : rules.board.Indexed) (hseats : state.Seats rules.schedule)
    (hturn : state.onClock? rules.schedule = some turn) (settings : Settings) (policy : Policy σ)
    (memory : σ) : (alone rules state turn settings policy memory).Explores fun _ => state := by
  have hempty : ∀ id, (alone rules state turn settings policy memory).tree.childrenOf id = [] := by
    intro id
    cases id <;> rfl
  constructor
  case board => exact hboard
  case turn => exact hturn
  case size_pos => exact Nat.one_pos
  case root => rfl
  case seats => exact fun _ _ => hseats
  case child_lt => simp [hempty]
  case choices => simp [hempty]
  case edge => simp [hempty]

theorem candidates_ne_nil (hturn : state.onClock? rules.schedule = some turn) :
    state.candidates rules ≠ [] := by
  rw [Ne, DraftState.candidates_eq_nil_iff, hturn]
  exact Option.some_ne_none turn

/-- A search starts with a child of the root for each candidate. -/
theorem start_eq (hturn : state.onClock? rules.schedule = some turn) (settings : Settings)
    (policy : Policy σ) (memory : σ) :
    start rules state settings policy memory =
      .ok ((alone rules state turn settings policy memory).branch 0 (state.candidates rules)) := by
  have hstart : start rules state settings policy memory =
      .ok ((alone rules state turn settings policy memory).expand 0 state).2 := by
    unfold start
    rw [hturn]
    rfl
  rw [hstart]
  have hleaf : (alone rules state turn settings policy memory).tree.childrenOf 0 = [] := rfl
  have hexpand := expand_of_open hleaf (candidates_ne_nil hturn)
  rw [hexpand]
  rfl

theorem of_start {settings : Settings} {policy : Policy σ} {memory : σ}
    (hstart : start rules state settings policy memory = .ok s) :
    ∃ turn, state.onClock? rules.schedule = some turn ∧
      s = (alone rules state turn settings policy memory).branch 0 (state.candidates rules) := by
  cases hturn : state.onClock? rules.schedule with
  | none => simp [start, hturn] at hstart
  | some turn =>
    rw [start_eq hturn] at hstart
    exact ⟨turn, rfl, (Except.ok.inj hstart).symm⟩

/-- A search of a draft that is not complete starts with a child of the root for each candidate. -/
theorem start_ok (hboard : rules.board.Indexed) (hseats : state.Seats rules.schedule)
    (hturn : state.onClock? rules.schedule = some turn) (settings : Settings) (policy : Policy σ)
    (memory : σ) :
    ∃ s stateAt, start rules state settings policy memory = .ok s ∧ s.Explores stateAt ∧
      s.tree.childrenOf 0 ≠ [] ∧ s.rules = rules ∧ s.state = state ∧ s.turn = turn ∧
      s.settings = settings ∧ s.policy = policy := by
  have halone := explores_alone hboard hseats hturn settings policy memory
  refine ⟨_, _, start_eq hturn settings policy memory, halone.addChildren halone.size_pos rfl _, ?_,
    rfl, rfl, rfl, rfl, rfl⟩
  show ((alone rules state turn settings policy memory).tree.addChildren 0 _).childrenOf 0 ≠ []
  have hempty : (alone rules state turn settings policy memory).tree.childrenOf 0 = [] := rfl
  rw [Tree.childrenOf_addChildren _ halone.size_pos, if_pos rfl, hempty]
  simpa using candidates_ne_nil hturn

end Start

end SnakeDraft.Search
