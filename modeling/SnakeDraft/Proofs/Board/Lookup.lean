import Mathlib
import SnakeDraft.Proofs.Board.Names
import SnakeDraft.Proofs.Draft.Recording

/-!
Looking a player up by name. A text spells a name (`Text.Spells`) when it is that name with the case of any ASCII
letters changed and blanks around it. On a board built from rows every spelling of a name leads to the player who
bears it, and to nobody else: the names that the rows were compared by, in small letters and trimmed, are told apart
exactly as the lookup tells them apart.
-/

namespace SnakeDraft

namespace Text

/-- The same characters, up to the case of ASCII letters. -/
def Recased (cs ds : List Char) : Prop :=
  List.Forall₂ (fun c d => d = c ∨ d = c.toLower ∨ d = c.toUpper) cs ds

/-- A text is a name with the case of any ASCII letters changed and blanks around it. -/
def Spells (text name : String) : Prop :=
  ∃ before letters after, text.toList = before ++ letters ++ after ∧
    (∀ c ∈ before, isBlank c = true) ∧ (∀ c ∈ after, isBlank c = true) ∧ Recased name.toList letters

theorem toLower_eq_iff {c d : Char} : c.toLower = d.toLower ↔ d = c ∨ d = c.toLower ∨ d = c.toUpper := by
  constructor
  · intro hsame
    by_cases hupper : d.isUpper = true
    · -- a capital is the capital of its small letter
      have hcapital : d.toUpper = d := Char.toUpper_eq_of_not_isLower (Char.not_isLower_of_isUpper hupper)
      right; right
      calc d = d.toLower.toUpper := by rw [Char.toUpper_toLower_eq_toUpper, hcapital]
        _ = c.toUpper := by rw [← hsame, Char.toUpper_toLower_eq_toUpper]
    · right; left
      rw [hsame, Char.toLower_eq_of_not_isUpper hupper]
  · rintro (rfl | rfl | rfl)
    · rfl
    · exact (Char.toLower_toLower_eq_toLower c).symm
    · exact (Char.toLower_toUpper_eq_toLower c).symm

theorem recased_iff {cs ds : List Char} : Recased cs ds ↔ cs.map Char.toLower = ds.map Char.toLower := by
  unfold Recased
  simp only [← toLower_eq_iff]
  rw [← List.forall₂_eq_eq_eq, List.forall₂_map_left_iff, List.forall₂_map_right_iff]

/-- Texts are compared by their letters, whatever the case of ASCII ones. -/
theorem sameFold_iff_recased {a b : String} : sameFold a b = true ↔ Recased a.toList b.toList := by
  rw [sameFold_iff, recased_iff, foldCase, foldCase, ← String.toList_inj, String.toList_map, String.toList_map]

theorem isBlank_of_isAlpha {c : Char} (h : c.isAlpha = true) : isBlank c = false := by
  have hrange : 65 ≤ c.toNat ∧ c.toNat ≤ 122 := by
    simp only [Char.isAlpha, Char.isUpper, Char.isLower, UInt32.le_iff_toNat_le, Bool.or_eq_true,
      Bool.and_eq_true, decide_eq_true_eq] at h
    change (65 ≤ c.toNat ∧ c.toNat ≤ 90) ∨ (97 ≤ c.toNat ∧ c.toNat ≤ 122) at h
    omega
  simp [isBlank, blankRanges]
  omega

theorem isBlank_toLower (c : Char) : isBlank c.toLower = isBlank c := by
  by_cases halpha : c.isAlpha = true
  · have hlower : c.toLower.isAlpha = true := by rw [Char.isAlpha_toLower_eq_isAlpha, halpha]
    rw [isBlank_of_isAlpha halpha, isBlank_of_isAlpha hlower]
  · have hnot : ¬ c.isUpper = true := fun hupper => halpha (by simp [Char.isAlpha, hupper])
    rw [Char.toLower_eq_of_not_isUpper hnot]

/-- Trimming does not see the case of letters. -/
theorem trimList_map_toLower (cs : List Char) :
    trimList (cs.map Char.toLower) = (trimList cs).map Char.toLower := by
  have hblank : isBlank ∘ Char.toLower = isBlank := funext isBlank_toLower
  simp only [trimList, List.dropWhile_map, ← List.map_reverse, hblank]

theorem trimList_surround {before after : List Char} (cs : List Char)
    (hbefore : ∀ c ∈ before, isBlank c = true) (hafter : ∀ c ∈ after, isBlank c = true) :
    trimList (before ++ cs ++ after) = trimList cs := by
  have hafter' : ∀ c ∈ after.reverse, isBlank c = true := by simpa using hafter
  unfold trimList
  rw [List.append_assoc, List.dropWhile_append_of_pos hbefore, List.dropWhile_append]
  split
  · next hblank => rw [List.isEmpty_iff.mp hblank, List.dropWhile_eq_nil_iff.mpr hafter]
  · rw [List.reverse_append, List.dropWhile_append_of_pos hafter']

/-- A spelling of a trimmed name is, once trimmed itself, that name up to case. -/
theorem Spells.recased {text name : String} (h : Spells text name) (hname : trim name = name) :
    Recased name.toList (trim text).toList := by
  obtain ⟨before, letters, after, htext, hbefore, hafter, hletters⟩ := h
  have htrimmed : trimList name.toList = name.toList := by
    have hlists := congrArg String.toList hname
    rwa [trim, String.toList_ofList] at hlists
  rw [recased_iff] at hletters ⊢
  calc name.toList.map Char.toLower = (trimList name.toList).map Char.toLower := by rw [htrimmed]
    _ = trimList (letters.map Char.toLower) := by rw [← trimList_map_toLower, hletters]
    _ = (trim text).toList.map Char.toLower := by
      rw [trimList_map_toLower, trim, String.toList_ofList, htext, trimList_surround letters hbefore hafter]

end Text

namespace Board

/-- The player with this id has this name, trimmed and up to the case of ASCII letters. -/
def Bears (b : Board) (id : Nat) (name : String) : Prop :=
  ∃ player, b.player? id = some player ∧ Text.Recased player.name.toList (Text.trim name).toList

theorem find?_eq_some_iff {b : Board} (hb : DistinctNames b.players) {name : String} {id : Nat} :
    b.find? name = some id ↔ b.Bears id name := by
  constructor
  · intro hfound
    obtain ⟨player, hplayer, hsame⟩ := player_of_find? hfound
    exact ⟨player, hplayer, Text.sameFold_iff_recased.mp hsame⟩
  · rintro ⟨player, hplayer, hsame⟩
    exact find?_of_sameFold hb hplayer (Text.sameFold_iff_recased.mpr hsame)

/-- Where names lead on a board. -/
structure LeadsByName (b : Board) : Prop where
  /-- All spellings of the name of a player lead to this player. -/
  spelled : ∀ id < b.size, ∃ player, b.player? id = some player ∧
    ∀ text, Text.Spells text player.name → b.find? text = some id
  found_iff : ∀ text id, b.find? text = some id ↔ b.Bears id text
  one_bears : ∀ text id other, b.Bears id text → b.Bears other text → id = other

/-- On every board that is built from rows, looking up a name inverts reading it off the board. -/
theorem lookup_inverts_names {rows : List Row} {b : Board} (hboard : ofRows rows = .ok b) :
    b.LeadsByName := by
  have hb := distinctNames_of_ofRows hboard
  constructor
  case spelled =>
    intro id hid
    refine ⟨b.players[id], Array.getElem?_eq_getElem hid, fun text hspells => ?_⟩
    have htrimmed := hb.trimmed _ (Array.getElem_mem hid)
    apply (find?_eq_some_iff hb).mpr
    exact ⟨b.players[id], Array.getElem?_eq_getElem hid, hspells.recased htrimmed⟩
  case found_iff => exact fun text id => find?_eq_some_iff hb
  case one_bears =>
    intro text id other hid hother
    rw [← find?_eq_some_iff hb] at hid hother
    exact Option.some.inj (hid.symm.trans hother)

/-- Only the case of ASCII letters is left out of account, and a no-break space is a blank. -/
theorem lookup_inverts_accented_names :
    let rows : List Row := [⟨2, "QB Á", "QB", "100"⟩, ⟨3, " QB á", "QB", "95"⟩]
    ∃ board, ofRows rows = .ok board ∧ board.LeadsByName ∧ board.find? "\u00a0qB á\t" = some 1 := by
  intro rows
  have hok : (ofRows rows).toOption.any
      (fun board => decide ((board.player? 1).map (·.name) = some "QB á")) = true := by
    decide +kernel
  obtain ⟨board, hfound, hname⟩ := (Option.any_eq_true _ _).mp hok
  have hboard := eq_ok_of_toOption hfound
  have hnames := lookup_inverts_names hboard
  obtain ⟨player, hplayer, hsecond⟩ := Option.map_eq_some_iff.mp (of_decide_eq_true hname)
  obtain ⟨again, hagain, hspelled⟩ := hnames.spelled 1 (Array.getElem?_eq_some_iff.mp hplayer).1
  cases hplayer.symm.trans hagain
  have hspells : Text.Spells "\u00a0qB á\t" "QB á" := by
    refine ⟨['\u00a0'], ['q', 'B', ' ', 'á'], ['\t'], by simp, ?_, ?_, Text.recased_iff.mpr (by simp)⟩
    · exact List.forall_mem_singleton.mpr (by decide)
    · exact List.forall_mem_singleton.mpr (by decide)
  rw [← hsecond] at hspells
  exact ⟨board, hboard, hnames, hspelled _ hspells⟩

end Board

end SnakeDraft
