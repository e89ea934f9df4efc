/-!
Decoding UTF-8. A sequence of bytes is decoded as a whole or refused at the first byte that starts no
well-formed sequence.
-/

namespace SnakeDraft.Text

/-- The value of a continuation byte between two bounds. -/
def continuation? (low high : UInt8) (b : UInt8) : Option Nat :=
  if low ≤ b ∧ b ≤ high then some (b.toNat % 64) else none

/-- The character that starts with a byte, and the number of bytes after it that belong to it. The
bounds on the second byte leave out overlong forms, surrogates and what lies beyond the last code
point. -/
def sequence? (lead : UInt8) (rest : List UInt8) : Option (Char × Nat) :=
  if lead < 0x80 then some (Char.ofNat lead.toNat, 0)
  else if 0xC2 ≤ lead ∧ lead ≤ 0xDF then
    match rest with
    | b :: _ => do
      let x ← continuation? 0x80 0xBF b
      some (Char.ofNat (lead.toNat % 32 * 64 + x), 1)
    | _ => none
  else if 0xE0 ≤ lead ∧ lead ≤ 0xEF then
    match rest with
    | b :: c :: _ => do
      let low := if lead = 0xE0 then 0xA0 else 0x80
      let high := if lead = 0xED then 0x9F else 0xBF
      let x ← continuation? low high b
      let y ← continuation? 0x80 0xBF c
      some (Char.ofNat ((lead.toNat % 16 * 64 + x) * 64 + y), 2)
    | _ => none
  else if 0xF0 ≤ lead ∧ lead ≤ 0xF4 then
    match rest with
    | b :: c :: d :: _ => do
      let low := if lead = 0xF0 then 0x90 else 0x80
      let high := if lead = 0xF4 then 0x8F else 0xBF
      let x ← continuation? low high b
      let y ← continuation? 0x80 0xBF c
      let z ← continuation? 0x80 0xBF d
      some (Char.ofNat (((lead.toNat % 8 * 64 + x) * 64 + y) * 64 + z), 3)
    | _ => none
  else none

/-- The characters of a sequence of bytes that starts at this offset, or the offset of the first byte
that starts no character. -/
def decodeFrom (offset : Nat) : List UInt8 → Except Nat (List Char)
  | [] => .ok []
  | lead :: rest =>
    match sequence? lead rest with
    | none => .error offset
    | some (c, extra) => (decodeFrom (offset + 1 + extra) (rest.drop extra)).map (c :: ·)
termination_by bytes => bytes.length
decreasing_by simp only [List.length_drop, List.length_cons]; omega

/-- The text that bytes encode, or the length of the longest part at their start that encodes one. -/
def decodeUtf8 (bytes : List UInt8) : Except Nat String :=
  (decodeFrom 0 bytes).map String.ofList

end SnakeDraft.Text
