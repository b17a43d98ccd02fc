/-
  AmdKit.Proofs.Places
  ────────────────────────────────
  **EVERY BOUNDARY HAS A PLACE OF ITS OWN.**

  A place is found by a walk over the characters in front of it.  `Place.next`
  says where one more character leads, and a walk is the fold of it, which at
  a boundary between two characters has counted

      line    =  1 + the line ends before the boundary
      column  =  1 + the characters behind the last of them

  A character leads on, to the next column or to the next line, so places stand
  in the order of their boundaries, by line first and then by column.
-/
import Mathlib.Data.List.DropRight
import Mathlib.Data.Prod.Lex
import Mathlib.Order.Monotone.Defs
import AmdKit.Proofs.Weave
import AmdKit.Text.Place

namespace AmdKit.Text

/-! ## §1. Walking over characters. -/

/-- The place behind a character that stands at the given place. -/
def Place.next (here : Place) (c : Char) : Place :=
  if c = '\n' then ⟨here.line + 1, 1⟩ else ⟨here.line, here.column + 1⟩

theorem Place.advance_zero (here : Place) (cs : List Char) : here.advance cs 0 = here := by
  cases cs <;> rfl

/-- An offset behind the first character is found from the place behind it. -/
theorem Place.advance_cons (here : Place) (c : Char) (cs : List Char) (n : Nat) :
    here.advance (c :: cs) (c.utf8Size + n) = (here.next c).advance cs n := by
  have hpos : 0 < c.utf8Size := Char.utf8Size_pos c
  obtain ⟨k, hk⟩ : ∃ k, c.utf8Size + n = k + 1 := ⟨c.utf8Size + n - 1, by omega⟩
  rw [hk, Place.advance, Place.next]
  by_cases hc : c = '\n'
  · -- A line end is a single byte.
    have hone : c.utf8Size = 1 := by
      rw [hc]
      rfl
    have hkn : k = n := by omega
    rw [if_pos hc, if_pos hc, hkn]
  · have hrest : k + 1 - c.utf8Size = n := by omega
    rw [if_neg hc, if_neg hc, if_pos (by omega), hrest]

/-- The place at a boundary is where the characters before it lead. -/
theorem Place.advance_append (here : Place) (before after : List Char) :
    here.advance (before ++ after) (byteLength before) = before.foldl Place.next here := by
  induction before generalizing here with
  | nil => exact here.advance_zero after
  | cons c before ih =>
      rw [List.cons_append, byteLength, Place.advance_cons, ih, List.foldl_cons]

/-! ## §2. What a walk has counted. -/

/-- From the start of a text, a walk counts the line ends, and the characters
behind the last one. -/
theorem foldl_next_eq (before : List Char) :
    before.foldl Place.next ⟨1, 1⟩
      = ⟨1 + before.count '\n', 1 + (before.rtakeWhile (· ≠ '\n')).length⟩ := by
  -- The walk ends with its last character, which either ends the line or belongs to it.
  induction before using List.reverseRecOn with
  | nil => rfl
  | append_singleton before c ih =>
      rw [List.foldl_append, ih, List.foldl_cons, List.foldl_nil, Place.next,
          List.rtakeWhile_concat, List.count_append]
      by_cases hc : c = '\n'
      · simp [hc, Nat.add_assoc]
      · simp [hc, Nat.add_assoc]

theorem placeAt_append (before after : List Char) :
    placeAt (before ++ after) (byteLength before)
      = ⟨1 + before.count '\n', 1 + (before.rtakeWhile (· ≠ '\n')).length⟩ := by
  unfold placeAt
  rw [Place.advance_append, foldl_next_eq]

/-! ## §3. The order of places. -/

/-- Places are compared by their lines, and on one line by their columns. -/
def Place.key (p : Place) : ℕ ×ₗ ℕ := toLex (p.line, p.column)

/-- A character leads on. -/
theorem Place.key_lt_next (here : Place) (c : Char) : here.key < (here.next c).key := by
  unfold Place.key Place.next
  rw [Prod.Lex.toLex_lt_toLex]
  split
  · exact Or.inl (Nat.lt_succ_self here.line)
  · exact Or.inr ⟨rfl, Nat.lt_succ_self here.column⟩

theorem Place.key_le_foldl (here : Place) (cs : List Char) :
    here.key ≤ (cs.foldl Place.next here).key := by
  induction cs generalizing here with
  | nil => exact le_refl here.key
  | cons c cs ih => exact (here.key_lt_next c).le.trans (ih (here.next c))

/-- So does every walk that takes a step. -/
theorem Place.key_lt_foldl (here : Place) {cs : List Char} (hcs : cs ≠ []) :
    here.key < (cs.foldl Place.next here).key := by
  cases cs with
  | nil => exact absurd rfl hcs
  | cons c cs => exact (here.key_lt_next c).trans_le ((here.next c).key_le_foldl cs)

/-- Of two boundaries of a text, the first one's characters are continued by
those between the two. -/
theorem exists_between {before after before' after' : List Char}
    (h : before ++ after = before' ++ after') (hlt : byteLength before < byteLength before') :
    ∃ between, between ≠ [] ∧ before' = before ++ between := by
  -- Both begin one text, so one of them begins the other; the lengths say which.
  have hbegins : before <+: before' ++ after' := ⟨after, h⟩
  rcases List.prefix_or_prefix_of_prefix hbegins (List.prefix_append before' after') with
    ⟨between, rfl⟩ | ⟨between, rfl⟩
  · refine ⟨between, ?_, rfl⟩
    rintro rfl
    rw [List.append_nil] at hlt
    omega
  · rw [byteLength_append] at hlt
    omega

/-- The boundaries of a text, by their byte offsets. -/
def boundaries (text : String) : Set Nat := {n | (String.Pos.Raw.mk n).IsValid text}

theorem mem_boundaries_iff {text : String} {n : Nat} :
    n ∈ boundaries text
      ↔ ∃ before after, text.toList = before ++ after ∧ byteLength before = n := by
  show (String.Pos.Raw.mk n).IsValid text ↔ _
  rw [isValid_iff_isSome_cutAt, Option.isSome_iff_exists]
  constructor
  · rintro ⟨⟨before, after⟩, hcut⟩
    exact ⟨before, after, eq_append_of_cutAt hcut⟩
  · rintro ⟨before, after, htext, rfl⟩
    exact ⟨(before, after), by rw [htext, cutAt_append]⟩

theorem strictMonoOn_key_placeAt (text : String) :
    StrictMonoOn (fun n => (placeAt text.toList n).key) (boundaries text) := by
  intro m hm n hn hmn
  obtain ⟨before, after, htext, rfl⟩ := mem_boundaries_iff.mp hm
  obtain ⟨before', after', htext', rfl⟩ := mem_boundaries_iff.mp hn
  obtain ⟨between, hbetween, rfl⟩ := exists_between (htext.symm.trans htext') hmn
  -- The walk to the second boundary goes on from where the first one stopped.
  have hfirst : placeAt text.toList (byteLength before) = before.foldl Place.next ⟨1, 1⟩ := by
    rw [htext]
    exact Place.advance_append ⟨1, 1⟩ before after
  have hsecond : placeAt text.toList (byteLength (before ++ between))
      = between.foldl Place.next (before.foldl Place.next ⟨1, 1⟩) := by
    rw [htext', ← List.foldl_append]
    exact Place.advance_append ⟨1, 1⟩ (before ++ between) after'
  show (placeAt text.toList (byteLength before)).key
    < (placeAt text.toList (byteLength (before ++ between))).key
  rw [hfirst, hsecond]
  exact Place.key_lt_foldl _ hbetween

/-- **Every boundary has a place of its own.**  At each boundary of a text, its
end included, the line counts the line ends before it and the column the
characters behind the last of them, both from one; so places grow with their
boundaries, and no two boundaries share one. -/
theorem placeAt_boundaries (text : String) :
    (∀ n ∈ boundaries text, ∃ before after, text.toList = before ++ after
        ∧ byteLength before = n
        ∧ placeAt text.toList n
          = ⟨1 + before.count '\n', 1 + (before.rtakeWhile (· ≠ '\n')).length⟩)
      ∧ StrictMonoOn (fun n => (placeAt text.toList n).key) (boundaries text)
      ∧ Set.InjOn (placeAt text.toList) (boundaries text) := by
  have hmono := strictMonoOn_key_placeAt text
  refine ⟨fun n hn => ?_, hmono, fun m hm n hn hplace => ?_⟩
  · obtain ⟨before, after, htext, rfl⟩ := mem_boundaries_iff.mp hn
    refine ⟨before, after, htext, rfl, ?_⟩
    rw [htext, placeAt_append]
  · exact hmono.injOn hm hn (congrArg Place.key hplace)

/-- In front of a line end, behind it, and one character further on, after a
character of two bytes. -/
theorem placeAt_boundaries_line_end :
    (2 ∈ boundaries "é\nab" ∧ 3 ∈ boundaries "é\nab" ∧ 4 ∈ boundaries "é\nab")
      ∧ (placeAt "é\nab".toList 2 = ⟨1, 2⟩ ∧ placeAt "é\nab".toList 3 = ⟨2, 1⟩
        ∧ placeAt "é\nab".toList 4 = ⟨2, 2⟩)
      ∧ (placeAt "é\nab".toList 2).key < (placeAt "é\nab".toList 3).key
      ∧ (placeAt "é\nab".toList 3).key < (placeAt "é\nab".toList 4).key := by
  have hfirst : 2 ∈ boundaries "é\nab" :=
    mem_boundaries_iff.mpr ⟨['é'], ['\n', 'a', 'b'], rfl, rfl⟩
  have hsecond : 3 ∈ boundaries "é\nab" :=
    mem_boundaries_iff.mpr ⟨['é', '\n'], ['a', 'b'], rfl, rfl⟩
  have hthird : 4 ∈ boundaries "é\nab" :=
    mem_boundaries_iff.mpr ⟨['é', '\n', 'a'], ['b'], rfl, rfl⟩
  obtain ⟨-, hmono, -⟩ := placeAt_boundaries "é\nab"
  exact ⟨⟨hfirst, hsecond, hthird⟩, ⟨rfl, rfl, rfl⟩, hmono hfirst hsecond (by decide),
    hmono hsecond hthird (by decide)⟩

end AmdKit.Text
