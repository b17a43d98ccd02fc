/-
  AmdKit.Text.Bytes
  ────────────────────────────────
  **BYTE OFFSETS IN A TEXT.**

  Every range that the library reports counts the bytes of the UTF-8 form of a
  text, while the text itself is walked character by character.  This module
  relates the two: `byteLength` measures a list of characters, and `cutAt`
  splits one at a byte offset, refusing an offset beyond the end or inside a
  character.

      cutAt s n = some (l, r)  →  s = l ++ r  ∧  byteLength l = n
-/

namespace AmdKit.Text

/-! ## §1. Length. -/

/-- Number of bytes that the characters occupy in UTF-8. -/
def byteLength : List Char → Nat
  | [] => 0
  | c :: cs => c.utf8Size + byteLength cs

theorem byteLength_append (l r : List Char) :
    byteLength (l ++ r) = byteLength l + byteLength r := by
  induction l with
  | nil => simp [byteLength]
  | cons c l ih => simp only [List.cons_append, byteLength, ih]; omega

/-! ## §2. Cutting. -/

/-- The characters before and from the byte offset `n`; `none` when the offset
lies beyond the end or inside a character. -/
def cutAt : List Char → Nat → Option (List Char × List Char)
  | cs, 0 => some ([], cs)
  | [], _ + 1 => none
  | c :: cs, n + 1 =>
    if c.utf8Size ≤ n + 1 then
      (cutAt cs (n + 1 - c.utf8Size)).map fun parts => (c :: parts.1, parts.2)
    else none

theorem cutAt_zero (s : List Char) : cutAt s 0 = some ([], s) := by
  cases s <;> rfl

/-- A cut loses nothing, and its first part is as long as the offset says. -/
theorem eq_append_of_cutAt {s l r : List Char} {n : Nat} (h : cutAt s n = some (l, r)) :
    s = l ++ r ∧ byteLength l = n := by
  induction s generalizing n l with
  | nil =>
    cases n with
    | zero => simp [cutAt] at h; obtain ⟨rfl, rfl⟩ := h; exact ⟨rfl, rfl⟩
    | succ n => simp [cutAt] at h
  | cons c cs ih =>
    cases n with
    | zero => simp [cutAt] at h; obtain ⟨rfl, rfl⟩ := h; exact ⟨rfl, rfl⟩
    | succ n =>
      simp only [cutAt] at h
      split at h
      · rename_i hc
        obtain ⟨parts, hp, he⟩ := Option.map_eq_some_iff.1 h
        obtain ⟨l', r'⟩ := parts
        cases he
        obtain ⟨hs, hb⟩ := ih hp
        refine ⟨by simp [hs], ?_⟩
        simp only [byteLength, hb]
        omega
      · cases h

/-- Cutting at the byte length of a first part gives back the two parts. -/
theorem cutAt_append (l r : List Char) : cutAt (l ++ r) (byteLength l) = some (l, r) := by
  induction l with
  | nil => simp [byteLength, cutAt_zero]
  | cons c l ih =>
    have hpos : 0 < c.utf8Size := Char.utf8Size_pos c
    obtain ⟨k, hk⟩ : ∃ k, c.utf8Size + byteLength l = k + 1 := ⟨c.utf8Size + byteLength l - 1, by omega⟩
    have hsub : k + 1 - c.utf8Size = byteLength l := by omega
    have hle : c.utf8Size ≤ k + 1 := by omega
    simp [byteLength, hk, cutAt, hle, hsub, ih]

end AmdKit.Text
