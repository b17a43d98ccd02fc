/-
  AmdKit.Proofs.Weave
  ────────────────────────────────
  **ONE PASS OVER A TEXT.**

  `weave before after n text` copies a text that begins at byte `n`.  On the
  way it writes `before k` in front of the character at byte `k`, and `after k`
  behind it; nothing that the text holds is dropped or moved.

      l silent  →  weave before after n (l ++ r)
                     = l ++ weave before after (n + byteLength l) r

  Cutting is compared with the positions of the standard library first, so
  that statements about whole strings can use those.
-/
import AmdKit.Text.Bytes

namespace AmdKit.Text

/-! ## §1. Boundaries. -/

theorem byteLength_toList (s : String) : byteLength s.toList = s.utf8ByteSize := by
  obtain ⟨cs, rfl⟩ := s.exists_eq_ofList
  rw [String.toList_ofList]
  induction cs with
  | nil => rfl
  | cons c cs ih =>
      rw [String.ofList_cons, String.utf8ByteSize_append, ← ih]
      simp [byteLength]

/-- A text can be cut where the standard library sees a position of it. -/
theorem isValid_iff_isSome_cutAt (s : String) (n : Nat) :
    (String.Pos.Raw.mk n).IsValid s ↔ (cutAt s.toList n).isSome = true := by
  rw [String.Pos.Raw.isValid_iff_exists_append]
  constructor
  · rintro ⟨l, r, rfl, hn⟩
    have hlen : n = byteLength l.toList := by
      rw [byteLength_toList]
      exact congrArg String.Pos.Raw.byteIdx hn
    rw [String.toList_append, hlen, cutAt_append]
    rfl
  · intro h
    obtain ⟨⟨l, r⟩, hcut⟩ := Option.isSome_iff_exists.mp h
    obtain ⟨hs, hn⟩ := eq_append_of_cutAt hcut
    refine ⟨String.ofList l, String.ofList r, ?_, ?_⟩
    · rw [← String.ofList_append, ← hs, String.ofList_toList]
    · apply String.Pos.Raw.ext
      show n = (String.ofList l).utf8ByteSize
      rw [← byteLength_toList, String.toList_ofList, hn]

/-- A cut inside of the first part does not see the second one. -/
theorem isSome_cutAt_append {l r : List Char} {n : Nat} (h : n ≤ byteLength l) :
    (cutAt (l ++ r) n).isSome = (cutAt l n).isSome := by
  induction l generalizing n with
  | nil =>
      have hn : n = 0 := by
        simp only [byteLength] at h
        omega
      rw [hn, cutAt_zero, cutAt_zero]
      rfl
  | cons c l ih =>
      cases n with
      | zero => rw [cutAt_zero, cutAt_zero]; rfl
      | succ n =>
          simp only [List.cons_append, cutAt]
          split
          · simp only [byteLength] at h
            rw [Option.isSome_map, Option.isSome_map]
            exact ih (by omega)
          · rfl

/-! ## §2. Weaving. -/

/-- The text from byte `n` on, with `before k` in front of the character at
byte `k` and `after k` behind it. -/
def weave (before after : Nat → List Char) : Nat → List Char → List Char
  | n, [] => before n
  | n, c :: cs => before n ++ c :: (after n ++ weave before after (n + c.utf8Size) cs)

/-- The pass only looks at offsets from its first one on. -/
theorem weave_congr {before after before' after' : Nat → List Char} (s : List Char) :
    ∀ (n : Nat), (∀ k, n ≤ k → before k = before' k ∧ after k = after' k) →
      weave before after n s = weave before' after' n s := by
  induction s with
  | nil =>
      intro n h
      exact (h n (Nat.le_refl n)).1
  | cons c cs ih =>
      intro n h
      unfold weave
      rw [(h n (Nat.le_refl n)).1, (h n (Nat.le_refl n)).2,
          ih (n + c.utf8Size) (fun k hk => h k (by omega))]

/-- Where nothing is written, the text is copied. -/
theorem weave_append {before after : Nat → List Char} (l r : List Char) :
    ∀ (n : Nat),
      (∀ k, n ≤ k → k < n + byteLength l → before k = [] ∧ after k = []) →
      weave before after n (l ++ r)
        = l ++ weave before after (n + byteLength l) r := by
  induction l with
  | nil => intro n _; rfl
  | cons c l ih =>
      intro n h
      have hpos : 0 < c.utf8Size := Char.utf8Size_pos c
      have hhere := h n (Nat.le_refl n) (by simp only [byteLength]; omega)
      have hrest := ih (n + c.utf8Size)
        (fun k h1 h2 => h k (by omega) (by simp only [byteLength]; omega))
      show before n ++ c :: (after n ++ weave before after (n + c.utf8Size) (l ++ r)) = _
      rw [hhere.1, hhere.2, hrest]
      simp only [byteLength, List.nil_append, List.cons_append, Nat.add_assoc]

theorem weave_silent (s : List Char) (n : Nat) :
    weave (fun _ => []) (fun _ => []) n s = s := by
  have h : weave (fun _ => []) (fun _ => []) n (s ++ []) = s ++ [] :=
    weave_append s [] n (fun _ _ _ => ⟨rfl, rfl⟩)
  rwa [List.append_nil] at h

/-- Up to the first offset at which something is written, a woven text is cut
like the text itself. -/
theorem cutAt_weave {before after : Nat → List Char} {s l r : List Char} {p : Nat}
    (hsilent : ∀ k, k < p → before k = [] ∧ after k = [])
    (h : cutAt s p = some (l, r)) :
    cutAt (weave before after 0 s) p = some (l, weave before after p r) := by
  obtain ⟨rfl, rfl⟩ := eq_append_of_cutAt h
  rw [weave_append l r 0 (fun k _ hk => hsilent k (by omega)), Nat.zero_add,
      cutAt_append]

theorem exists_weave_eq (before after : Nat → List Char) (n : Nat) (s : List Char) :
    ∃ t, weave before after n s = before n ++ t := by
  cases s with
  | nil => exact ⟨[], (List.append_nil (before n)).symm⟩
  | cons c cs => exact ⟨_, rfl⟩

/-- Two passes that differ in front of their first character only. -/
theorem exists_weave_eq_append {before after before' after' : Nat → List Char}
    (p : Nat) (s : List Char)
    (hlater : ∀ k, p < k → before k = before' k ∧ after k = after' k)
    (hafter : after p = after' p) :
    ∃ t, weave before after p s = before p ++ t
      ∧ weave before' after' p s = before' p ++ t := by
  cases s with
  | nil => exact ⟨[], by simp [weave], by simp [weave]⟩
  | cons c cs =>
      have hpos : 0 < c.utf8Size := Char.utf8Size_pos c
      refine ⟨c :: (after p ++ weave before after (p + c.utf8Size) cs), rfl, ?_⟩
      rw [weave_congr cs (p + c.utf8Size) (fun k hk => hlater k (by omega)), hafter]
      rfl

/-- When a woven text begins with a pair of brackets and nothing is written at
its first offset, the text has them itself: an array that is inserted between
them begins with a bracket of its own. -/
theorem weave_eq_brackets_iff {before after : Nat → List Char} {p : Nat} {s t : List Char}
    (hbefore : before p = []) (hafter : after p = [])
    (harray : before (p + 1) = [] ∨ ∃ u, before (p + 1) = '[' :: u) :
    weave before after p s = '[' :: ']' :: t
      ↔ before (p + 1) = [] ∧ ∃ cs, s = '[' :: ']' :: cs
        ∧ t = after (p + 1) ++ weave before after (p + 2) cs := by
  constructor
  · intro h
    cases s with
    | nil =>
        rw [weave, hbefore] at h
        cases h
    | cons c cs =>
        -- Nothing is written at `p`, so the first bracket is in the text; the second
        -- one is too, unless an array that begins with another bracket comes first.
        rw [weave, hbefore, hafter] at h
        simp only [List.nil_append, List.cons.injEq] at h
        obtain ⟨rfl, h⟩ := h
        rw [show Char.utf8Size '[' = 1 from rfl] at h
        have hnil : before (p + 1) = [] := by
          refine harray.resolve_right ?_
          rintro ⟨u, hu⟩
          cases cs <;> rw [weave, hu] at h <;>
            exact absurd (List.cons.inj h).1 (by decide)
        cases cs with
        | nil =>
            rw [weave, hnil] at h
            cases h
        | cons d cs =>
            rw [weave, hnil] at h
            simp only [List.nil_append, List.cons.injEq] at h
            obtain ⟨rfl, h⟩ := h
            exact ⟨hnil, cs, rfl, h.symm⟩
  · rintro ⟨hnil, cs, rfl, rfl⟩
    show before p ++ '[' :: (after p ++ (before (p + 1) ++ ']' :: _)) = _
    rw [hbefore, hafter, hnil]
    rfl

end AmdKit.Text
