import SnakeDraft.Json.Text

/-!
A quoted text is read back as it was (`Json.unquote?_quote`). Each character is written either as itself or
as a backslash with an escape, and the reader takes back both.
-/

namespace SnakeDraft.Json

theorem hexValue?_digitChar : ∀ d < 16, hexValue? (Nat.digitChar d) = some d := by
  decide

theorem fourDigits?_hexPair {n : Nat} (hn : n < 256) (rest : List Char) :
    fourDigits? ('0' :: '0' :: hexPair n ++ rest) = some (n, rest) := by
  have hhigh := hexValue?_digitChar (n / 16) (by omega)
  have hlow := hexValue?_digitChar (n % 16) (by omega)
  have hzero : hexValue? '0' = some 0 := by decide
  simp only [hexPair, fourDigits?, List.cons_append, List.nil_append, hhigh, hlow, hzero,
    Option.bind_eq_bind, Option.bind_some]
  congr 2
  omega

/-- The reader takes back the written form of a character that is escaped. -/
theorem escape_cases (c : Char) :
    (escape c = [c] ∧ c ≠ '"' ∧ c ≠ '\\' ∧ ¬ c.toNat < 0x20) ∨
      ∃ body, escape c = '\\' :: body ∧ ∀ rest, unescape? (body ++ rest) = some (c, rest) := by
  by_cases hquote : c = '"'
  · subst hquote
    exact .inr ⟨['"'], rfl, fun _ => rfl⟩
  by_cases hslash : c = '\\'
  · subst hslash
    exact .inr ⟨['\\'], rfl, fun _ => rfl⟩
  by_cases hnewline : c = '\n'
  · subst hnewline
    exact .inr ⟨['n'], rfl, fun _ => rfl⟩
  by_cases hreturn : c = '\r'
  · subst hreturn
    exact .inr ⟨['r'], rfl, fun _ => rfl⟩
  by_cases htab : c = '\t'
  · subst htab
    exact .inr ⟨['t'], rfl, fun _ => rfl⟩
  by_cases hback : c = '\x08'
  · subst hback
    exact .inr ⟨['b'], rfl, fun _ => rfl⟩
  by_cases hfeed : c = '\x0c'
  · subst hfeed
    exact .inr ⟨['f'], rfl, fun _ => rfl⟩
  by_cases hcontrol : c.toNat < 0x20
  · refine .inr ⟨'u' :: '0' :: '0' :: hexPair c.toNat, ?_, fun rest => ?_⟩
    · unfold escape
      simp only [hquote, hslash, hnewline, hreturn, htab, hback, hfeed, hcontrol, if_false, if_true]
    · have hdigits := fourDigits?_hexPair (n := c.toNat) (by omega) rest
      show numericEscape? ('0' :: '0' :: hexPair c.toNat ++ rest) = some (c, rest)
      unfold numericEscape?
      rw [hdigits]
      show (if c.toNat < 0xD800 ∨ 0xE000 ≤ c.toNat then some (Char.ofNat c.toNat, rest) else _) = _
      rw [if_pos (by omega), Char.ofNat_toNat]
  · refine .inl ⟨?_, hquote, hslash, hcontrol⟩
    unfold escape
    simp only [hquote, hslash, hnewline, hreturn, htab, hback, hfeed, hcontrol, if_false]

theorem unquoted_escape (cs rest : List Char) {fuel : Nat} (hfuel : cs.length < fuel) :
    unquoted fuel (cs.flatMap escape ++ '"' :: rest) = some (cs, rest) := by
  induction cs generalizing fuel with
  | nil =>
    obtain ⟨n, rfl⟩ : ∃ n, fuel = n + 1 := ⟨fuel - 1, by simp at hfuel; omega⟩
    simp [unquoted]
  | cons c cs ih =>
    rw [List.length_cons] at hfuel
    obtain ⟨n, rfl⟩ : ∃ n, fuel = n + 1 := ⟨fuel - 1, by omega⟩
    have hless : cs.length < n := by omega
    have hrest := ih hless
    rw [List.flatMap_cons, List.append_assoc]
    rcases escape_cases c with ⟨hescape, hquote, hslash, hcontrol⟩ | ⟨body, hescape, hbody⟩
    · rw [hescape, List.singleton_append, unquoted, if_neg hquote, if_neg hslash, if_neg hcontrol,
        hrest]
      rfl
    · rw [hescape, List.cons_append, unquoted, if_neg (by decide), if_pos rfl, hbody]
      simp only [Option.bind_eq_bind, Option.bind_some, hrest]

theorem length_le_escape (cs : List Char) : cs.length ≤ (cs.flatMap escape).length := by
  induction cs with
  | nil => exact Nat.le_refl 0
  | cons c cs ih =>
    have hc : 1 ≤ (escape c).length := by
      rcases escape_cases c with ⟨hescape, -⟩ | ⟨body, hescape, -⟩ <;> simp [hescape]
    rw [List.flatMap_cons, List.length_append, List.length_cons]
    omega

@[simp] theorem unquote?_quote (text : String) : unquote? (quote text) = some text := by
  have hread : unquoted ((text.toList.flatMap escape ++ ['"']).length + 1)
      (text.toList.flatMap escape ++ ['"']) = some (text.toList, []) := by
    refine unquoted_escape text.toList [] ?_
    have hlength := length_le_escape text.toList
    rw [List.length_append]
    omega
  unfold unquote? quote
  rw [String.toList_ofList, List.cons_append, List.dropWhile_cons_of_neg (by decide)]
  simp only [hread]
  simp

end SnakeDraft.Json
