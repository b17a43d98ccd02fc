/-
  AmdKit.Proofs.Batch
  ────────────────────────────────
  **WHAT A BATCH OF EDITS DOES.**

  A batch is sorted and applied from its last offset down, and every step looks
  at the text that the steps before it left.  Here the batch is described
  on the ORIGINAL text alone:

      execute source edits = .ok out
        ↔  Fits source edits  ∧  out = woven source edits

  `Fits` says which batches go through.  `woven` copies the source once, from
  left to right, and writes the new arrays and the items of old ones on the way.
  Both depend on the edits only, so the order in which these are given does not
  matter.

  The invariant of the loop: when the edits from some offset on have been
  applied, the text is the source woven with these edits, so it still is
  the source up to the first of them.
-/
import AmdKit.Proofs.EditOrder

namespace AmdKit.Amd

open Text (byteLength cutAt weave)

/-! ## §1. What a batch writes. -/

/-- The modules that an edit writes. -/
def Edit.modules : Edit → List String
  | .addEmptyArray .. => []
  | .fillDependencies _ _ modules => modules

/-- The batch inserts an array at the offset. -/
def InsertsAt (edits : List Edit) (n : Nat) : Prop :=
  ∃ e ∈ edits, e.kind = .addEmptyArray ∧ e.point = n

instance (edits : List Edit) (n : Nat) : Decidable (InsertsAt edits n) :=
  inferInstanceAs (Decidable (∃ e ∈ edits, e.kind = .addEmptyArray ∧ e.point = n))

/-- The modules that the batch writes at the offset. -/
def modulesAt (edits : List Edit) (n : Nat) : List String :=
  (edits.filter fun e => e.kind = .fillDependencies ∧ e.point = n).flatMap Edit.modules

/-- An array of the modules and the comma behind it. -/
def arrayText (modules : List String) : List Char :=
  '[' :: (Json.quotedList modules ++ [']', ','])

/-- What the batch writes in front of the character at an offset. -/
def newArray (edits : List Edit) (n : Nat) : List Char :=
  if InsertsAt edits n then arrayText (modulesAt edits n) else []

/-- What the batch writes behind the character at an offset: the items of an
array that the text has there already. -/
def newItems (edits : List Edit) (n : Nat) : List Char :=
  if InsertsAt edits n then [] else Json.quotedList (modulesAt edits n)

/-- The text with everything that the batch writes. -/
def wovenChars (script : List Char) (edits : List Edit) : List Char :=
  weave (newArray edits) (newItems edits) 0 script

theorem insertsAt_cons (e : Edit) (es : List Edit) (n : Nat) :
    InsertsAt (e :: es) n
      ↔ (e.kind = .addEmptyArray ∧ e.point = n) ∨ InsertsAt es n := by
  simp [InsertsAt]

theorem modulesAt_cons_of_not {e : Edit} {n : Nat}
    (h : ¬ (e.kind = .fillDependencies ∧ e.point = n)) (es : List Edit) :
    modulesAt (e :: es) n = modulesAt es n := by
  unfold modulesAt
  rw [List.filter_cons_of_neg (by simpa using h)]

theorem modulesAt_cons_of_fills {e : Edit} {n : Nat} (hk : e.kind = .fillDependencies)
    (hp : e.point = n) (es : List Edit) :
    modulesAt (e :: es) n = e.modules ++ modulesAt es n := by
  unfold modulesAt
  rw [List.filter_cons_of_pos (by simp [hk, hp]), List.flatMap_cons]

theorem modulesAt_eq_nil {es : List Edit} {n : Nat}
    (h : ∀ e ∈ es, e.kind = .fillDependencies → e.point ≠ n) : modulesAt es n = [] := by
  unfold modulesAt
  rw [List.filter_eq_nil_iff.mpr, List.flatMap_nil]
  intro e he hk
  simp only [decide_eq_true_eq] at hk
  exact h e he hk.1 hk.2

theorem newArray_eq_nil_iff (es : List Edit) (n : Nat) :
    newArray es n = [] ↔ ¬ InsertsAt es n := by
  unfold newArray
  by_cases h : InsertsAt es n
  · simp [h, arrayText]
  · simp [h]

theorem newArray_eq_nil {es : List Edit} {n : Nat} (h : ¬ InsertsAt es n) :
    newArray es n = [] := (newArray_eq_nil_iff es n).mpr h

theorem newItems_eq_nil {es : List Edit} {n : Nat}
    (h : ∀ e ∈ es, e.kind = .fillDependencies → e.point ≠ n) : newItems es n = [] := by
  unfold newItems
  rw [modulesAt_eq_nil h]
  split <;> rfl

/-- An array that nothing fills is empty. -/
theorem newArray_of_insertsAt {es : List Edit} {n : Nat} (hi : InsertsAt es n)
    (h : ∀ e ∈ es, e.kind = .fillDependencies → e.point ≠ n) :
    newArray es n = ['[', ']', ','] := by
  unfold newArray
  rw [if_pos hi, modulesAt_eq_nil h]
  rfl

/-- An array that is inserted begins with its bracket. -/
theorem newArray_nil_or_cons (es : List Edit) (n : Nat) :
    newArray es n = [] ∨ ∃ u, newArray es n = '[' :: u := by
  unfold newArray
  split
  · exact Or.inr ⟨_, rfl⟩
  · exact Or.inl rfl

/-- Below its first offset a batch writes nothing. -/
theorem silent_of_le {es : List Edit} {p : Nat} (h : ∀ e ∈ es, p ≤ e.point) (k : Nat)
    (hk : k < p) : newArray es k = [] ∧ newItems es k = [] := by
  constructor
  · apply newArray_eq_nil
    rintro ⟨e, he, -, hp⟩
    have := h e he
    omega
  · apply newItems_eq_nil
    intro e he _ hp
    have := h e he
    omega

/-- An edit changes what is written at its own offset only. -/
theorem written_cons_of_ne {e : Edit} {es : List Edit} {k : Nat} (h : e.point ≠ k) :
    newArray es k = newArray (e :: es) k ∧ newItems es k = newItems (e :: es) k := by
  have hmod : modulesAt (e :: es) k = modulesAt es k :=
    modulesAt_cons_of_not (fun hk => h hk.2) es
  have hins : InsertsAt (e :: es) k ↔ InsertsAt es k := by
    rw [insertsAt_cons]
    exact or_iff_right (fun hk => h hk.2)
  unfold newArray newItems
  simp only [hmod, hins]
  exact ⟨trivial, trivial⟩

/-! ## §2. The loop. -/

/-- The text has an empty array at the offset. -/
def HasBrackets (script : List Char) (n : Nat) : Prop :=
  ∃ l r, script = l ++ '[' :: ']' :: r ∧ byteLength l = n

/-- What the loop needs of a text: every offset is one of its boundaries, and
every array that is filled is there or is inserted. -/
structure Ready (script : List Char) (edits : List Edit) : Prop where
  onBoundary : ∀ e ∈ edits, (cutAt script e.point).isSome = true
  hasArray : ∀ e ∈ edits, e.kind = .fillDependencies →
    InsertsAt edits e.point
      ∨ (HasBrackets script e.point ∧ ¬ InsertsAt edits (e.point + 1))

theorem hasBrackets_iff {script l r : List Char} {p : Nat}
    (h : cutAt script p = some (l, r)) :
    HasBrackets script p ↔ ∃ r', r = '[' :: ']' :: r' := by
  constructor
  · rintro ⟨l', r', hs, hp⟩
    rw [hs, ← hp, Text.cutAt_append, Option.some.injEq, Prod.mk.injEq] at h
    exact ⟨r', h.2.symm⟩
  · rintro ⟨r', rfl⟩
    obtain ⟨hs, hp⟩ := Text.eq_append_of_cutAt h
    exact ⟨l, r', hs, hp⟩

/-- The edits after the first one of a sorted batch do not look at it. -/
theorem ready_cons_iff {script : List Char} {e : Edit} {es : List Edit}
    (he : ∀ x ∈ es, e.Before x) :
    Ready script (e :: es)
      ↔ Ready script es ∧ (cutAt script e.point).isSome = true
        ∧ (e.kind = .fillDependencies → InsertsAt es e.point
            ∨ (HasBrackets script e.point ∧ ¬ InsertsAt es (e.point + 1))) := by
  -- At one offset the filling edit is first in the list, and no edit of the list
  -- works below the first one: `e` inserts neither at a filled offset nor behind it.
  have hsame : ∀ x ∈ e :: es, x.kind = .fillDependencies →
      (InsertsAt (e :: es) x.point ↔ InsertsAt es x.point)
        ∧ (InsertsAt (e :: es) (x.point + 1) ↔ InsertsAt es (x.point + 1)) := by
    intro x hx hk
    rw [insertsAt_cons, insertsAt_cons]
    refine ⟨or_iff_right ?_, or_iff_right ?_⟩ <;> rintro ⟨hadd, hp⟩
    · rcases List.mem_cons.mp hx with rfl | hx
      · rw [hk] at hadd
        cases hadd
      · have hb := he x hx
        unfold Edit.Before at hb
        rw [hadd, hk] at hb
        simp only [EditKind.rank] at hb
        omega
    · rcases List.mem_cons.mp hx with rfl | hx
      · omega
      · have hb := (he x hx).point_le
        omega
  constructor
  · rintro ⟨hb, ha⟩
    refine ⟨⟨fun x hx => hb x (List.mem_cons_of_mem _ hx), fun x hx hk => ?_⟩,
      hb e List.mem_cons_self, fun hk => ?_⟩
    · have hiff := hsame x (List.mem_cons_of_mem _ hx) hk
      rw [← hiff.1, ← hiff.2]
      exact ha x (List.mem_cons_of_mem _ hx) hk
    · have hiff := hsame e List.mem_cons_self hk
      rw [← hiff.1, ← hiff.2]
      exact ha e List.mem_cons_self hk
  · rintro ⟨hr, hb, ha⟩
    refine ⟨fun x hx => ?_, fun x hx hk => ?_⟩
    · rcases List.mem_cons.mp hx with rfl | hx
      · exact hb
      · exact hr.onBoundary x hx
    · have hiff := hsame x hx hk
      rw [hiff.1, hiff.2]
      rcases List.mem_cons.mp hx with rfl | hx
      · exact ha hk
      · exact hr.hasArray x hx hk

/-- **The invariant of the loop.**  A text that has been woven with later edits
is cut like the text itself. -/
theorem cutAt_wovenChars {script : List Char} {es : List Edit} {p : Nat}
    (hs : es.Pairwise Edit.Before) (hr : Ready script es) (hp : ∀ x ∈ es, p ≤ x.point) :
    cutAt (wovenChars script es) p
      = (cutAt script p).map fun parts =>
          (parts.1, weave (newArray es) (newItems es) p parts.2) := by
  cases h : cutAt script p with
  | some parts => exact Text.cutAt_weave (silent_of_le hp) h
  | none =>
      -- No boundary of the text: the first edit works beyond it, on a boundary,
      -- and up to there nothing has changed.
      cases es with
      | nil =>
          show cutAt (weave (fun _ => []) (fun _ => []) 0 script) p = none
          rw [Text.weave_silent]
          exact h
      | cons e es =>
          obtain ⟨⟨l, r⟩, hcut⟩ :=
            Option.isSome_iff_exists.mp (hr.onBoundary e List.mem_cons_self)
          obtain ⟨rfl, hl⟩ := Text.eq_append_of_cutAt hcut
          have hle : p ≤ byteLength l := by
            rw [hl]
            exact hp e List.mem_cons_self
          have hfirst : ∀ x ∈ e :: es, 0 + byteLength l ≤ x.point := by
            intro x hx
            rw [Nat.zero_add, hl]
            rcases List.mem_cons.mp hx with rfl | hx
            · exact Nat.le_refl _
            · exact ((List.pairwise_cons.mp hs).1 x hx).point_le
          have hnone : (cutAt l p).isSome = false := by
            rw [← Text.isSome_cutAt_append (r := r) hle, h]
            rfl
          unfold wovenChars
          rw [Text.weave_append l r 0 (fun k _ hk => silent_of_le hfirst k hk)]
          rw [← Text.isSome_cutAt_append hle] at hnone
          exact Option.not_isSome_iff_eq_none.mp (by rw [hnone]; exact Bool.false_ne_true)

/-- A woven text, cut at an offset below which nothing is written. -/
theorem wovenChars_eq_append {script l r : List Char} {es : List Edit} {p : Nat}
    (hp : ∀ x ∈ es, p ≤ x.point) (h : cutAt script p = some (l, r)) :
    wovenChars script es = l ++ weave (newArray es) (newItems es) p r := by
  obtain ⟨rfl, rfl⟩ := Text.eq_append_of_cutAt h
  unfold wovenChars
  rw [Text.weave_append l r 0 (fun k _ hk => silent_of_le hp k (by omega)), Nat.zero_add]

/-- No edit fills at the offset of an earlier one. -/
theorem not_fills_of_before {e : Edit} {es : List Edit} (he : ∀ x ∈ es, e.Before x)
    (x : Edit) (hx : x ∈ es) (hk : x.kind = .fillDependencies) : x.point ≠ e.point := by
  intro hp
  have hb := he x hx
  unfold Edit.Before at hb
  rw [hk] at hb
  cases hkind : e.kind <;> rw [hkind] at hb <;> simp only [EditKind.rank] at hb <;> omega

section Step

variable {script : List Char} {scope : Text.Span} {p : Nat} {modules : List String}
  {es : List Edit}

/-- When the edits `es` have been applied, the one in front of them inserts its
array. -/
theorem apply_addEmptyArray_wovenChars {out : List Char}
    (hs : (Edit.addEmptyArray scope p :: es).Pairwise Edit.Before) (hr : Ready script es) :
    Edit.apply (wovenChars script es) (.addEmptyArray scope p) = .ok out
      ↔ (cutAt script p).isSome = true
        ∧ out = wovenChars script (.addEmptyArray scope p :: es) := by
  obtain ⟨he, hes⟩ := List.pairwise_cons.mp hs
  have hle : ∀ x ∈ es, p ≤ x.point := fun x hx => (he x hx).point_le
  have hle' : ∀ x ∈ Edit.addEmptyArray scope p :: es, p ≤ x.point :=
    List.forall_mem_cons.mpr ⟨Nat.le_refl p, hle⟩
  have hnofill : ∀ x ∈ es, x.kind = .fillDependencies → x.point ≠ p :=
    not_fills_of_before he
  -- The later edits write no array here: one that does would share point and kind with the first.
  have hnone : ¬ InsertsAt es p := by
    rintro ⟨x, hx, hk, hpx⟩
    have hb := he x hx
    unfold Edit.Before at hb
    rw [hk, hpx] at hb
    simp only [Edit.point, Edit.kind] at hb
    omega
  have hitems : newItems es p = newItems (Edit.addEmptyArray scope p :: es) p := by
    rw [newItems_eq_nil hnofill]
    exact (if_pos ⟨_, List.mem_cons_self, rfl, rfl⟩).symm
  have harray : newArray (Edit.addEmptyArray scope p :: es) p = ['[', ']', ','] :=
    newArray_of_insertsAt ⟨_, List.mem_cons_self, rfl, rfl⟩
      (List.forall_mem_cons.mpr ⟨fun hk => (by cases hk), hnofill⟩)
  rw [apply_addEmptyArray_eq_ok_iff, cutAt_wovenChars hes hr hle]
  cases hcut : cutAt script p with
  | none => simp
  | some parts =>
      obtain ⟨l, r⟩ := parts
      have hlater : ∀ k, p < k → newArray es k = newArray (Edit.addEmptyArray scope p :: es) k
          ∧ newItems es k = newItems (Edit.addEmptyArray scope p :: es) k :=
        fun k hk => written_cons_of_ne (Nat.ne_of_lt hk)
      -- Behind the point both passes write the same, so the two woven texts share their tail.
      obtain ⟨t, ht, ht'⟩ := Text.exists_weave_eq_append p r hlater hitems
      have hwoven : wovenChars script (Edit.addEmptyArray scope p :: es)
          = l ++ '[' :: ']' :: ',' :: weave (newArray es) (newItems es) p r := by
        rw [wovenChars_eq_append hle' hcut, ht', harray, ht, newArray_eq_nil hnone]
        rfl
      rw [hwoven]
      constructor
      · rintro ⟨l', r', h, rfl⟩
        cases h
        exact ⟨rfl, rfl⟩
      · rintro ⟨-, rfl⟩
        exact ⟨l, _, rfl, rfl⟩

/-- The items of an array go between its brackets, whether the array has been
inserted just before or has been there. -/
theorem wovenChars_cons_fillDependencies {l r r' : List Char}
    (hs : (Edit.fillDependencies scope p modules :: es).Pairwise Edit.Before)
    (hcut : cutAt script p = some (l, r))
    (hw : weave (newArray es) (newItems es) p r = '[' :: ']' :: r') :
    wovenChars script (Edit.fillDependencies scope p modules :: es)
      = l ++ '[' :: (Json.quotedList modules ++ ']' :: r') := by
  obtain ⟨he, hes⟩ := List.pairwise_cons.mp hs
  have hle' : ∀ x ∈ Edit.fillDependencies scope p modules :: es, p ≤ x.point :=
    List.forall_mem_cons.mpr ⟨Nat.le_refl p, fun x hx => (he x hx).point_le⟩
  have hnofill : ∀ x ∈ es, x.kind = .fillDependencies → x.point ≠ p :=
    not_fills_of_before he
  have hins : InsertsAt (Edit.fillDependencies scope p modules :: es) p ↔ InsertsAt es p := by
    rw [insertsAt_cons]
    exact or_iff_right (fun hk => by cases hk.1)
  have hmod : modulesAt (Edit.fillDependencies scope p modules :: es) p = modules := by
    have h : modulesAt (Edit.fillDependencies scope p modules :: es) p
        = modules ++ modulesAt es p := modulesAt_cons_of_fills rfl rfl es
    rw [h, modulesAt_eq_nil hnofill, List.append_nil]
  have hlater : ∀ k, p < k →
      newArray es k = newArray (Edit.fillDependencies scope p modules :: es) k
        ∧ newItems es k = newItems (Edit.fillDependencies scope p modules :: es) k :=
    fun k hk => written_cons_of_ne (Nat.ne_of_lt hk)
  rw [wovenChars_eq_append hle' hcut]
  congr 1
  by_cases hi : InsertsAt es p
  · -- The brackets at `p` are those of the array that was inserted before.
    have hitems : newItems es p = newItems (Edit.fillDependencies scope p modules :: es) p := by
      unfold newItems
      rw [if_pos hi, if_pos (hins.mpr hi)]
    obtain ⟨t, ht, ht'⟩ := Text.exists_weave_eq_append p r hlater hitems
    have hr' : r' = ',' :: t := by
      rw [hw, newArray_of_insertsAt hi hnofill] at ht
      exact (List.cons.inj (List.cons.inj ht).2).2
    rw [ht', hr']
    unfold newArray
    rw [if_pos (hins.mpr hi), hmod]
    simp [arrayText]
  · -- The brackets are in the text: the pass copies the first one and writes the
    -- items behind it.
    obtain ⟨-, cs, rfl, -⟩ := (Text.weave_eq_brackets_iff (newArray_eq_nil hi)
      (newItems_eq_nil hnofill) (newArray_nil_or_cons es (p + 1))).mp hw
    have hrest : weave (newArray es) (newItems es) (p + 1) (']' :: cs) = ']' :: r' := by
      have h : newArray es p ++ '[' :: (newItems es p
          ++ weave (newArray es) (newItems es) (p + 1) (']' :: cs)) = '[' :: ']' :: r' := hw
      rw [newArray_eq_nil hi, newItems_eq_nil hnofill] at h
      exact (List.cons.inj h).2
    show newArray (Edit.fillDependencies scope p modules :: es) p ++ '[' ::
        (newItems (Edit.fillDependencies scope p modules :: es) p
          ++ weave _ _ (p + 1) (']' :: cs)) = _
    rw [newArray_eq_nil (fun h => hi (hins.mp h)),
        ← Text.weave_congr (']' :: cs) (p + 1) (fun k hk => hlater k (by omega)), hrest]
    unfold newItems
    rw [if_neg (fun h => hi (hins.mp h)), hmod]
    rfl

/-- The loop finds an array where the batch inserts one, or where the text has
one into which the batch inserts no other. -/
theorem exists_weave_eq_brackets_iff {l r : List Char} (hcut : cutAt script p = some (l, r))
    (hnofill : ∀ x ∈ es, x.kind = .fillDependencies → x.point ≠ p) :
    (∃ r', weave (newArray es) (newItems es) p r = '[' :: ']' :: r')
      ↔ InsertsAt es p ∨ (HasBrackets script p ∧ ¬ InsertsAt es (p + 1)) := by
  by_cases hi : InsertsAt es p
  · refine ⟨fun _ => Or.inl hi, fun _ => ?_⟩
    obtain ⟨t, ht⟩ := Text.exists_weave_eq (newArray es) (newItems es) p r
    refine ⟨',' :: t, ?_⟩
    rw [ht, newArray_of_insertsAt hi hnofill]
    rfl
  · rw [or_iff_right hi, hasBrackets_iff hcut, ← newArray_eq_nil_iff]
    have hiff := fun t => Text.weave_eq_brackets_iff (s := r) (t := t)
      (newArray_eq_nil hi) (newItems_eq_nil hnofill) (newArray_nil_or_cons es (p + 1))
    constructor
    · rintro ⟨r', hw⟩
      obtain ⟨hnil, cs, hr, -⟩ := (hiff r').mp hw
      exact ⟨⟨cs, hr⟩, hnil⟩
    · rintro ⟨⟨cs, hr⟩, hnil⟩
      exact ⟨_, (hiff _).mpr ⟨hnil, cs, hr, rfl⟩⟩

/-- When the edits `es` have been applied, the one in front of them fills its
array, if that has been inserted or is there, still in one piece. -/
theorem apply_fillDependencies_wovenChars {out : List Char}
    (hs : (Edit.fillDependencies scope p modules :: es).Pairwise Edit.Before)
    (hr : Ready script es) :
    Edit.apply (wovenChars script es) (.fillDependencies scope p modules) = .ok out
      ↔ (cutAt script p).isSome = true
        ∧ (InsertsAt es p ∨ (HasBrackets script p ∧ ¬ InsertsAt es (p + 1)))
        ∧ out = wovenChars script (.fillDependencies scope p modules :: es) := by
  obtain ⟨he, hes⟩ := List.pairwise_cons.mp hs
  have hle : ∀ x ∈ es, p ≤ x.point := fun x hx => (he x hx).point_le
  have hnofill : ∀ x ∈ es, x.kind = .fillDependencies → x.point ≠ p :=
    not_fills_of_before he
  rw [apply_fillDependencies_eq_ok_iff, cutAt_wovenChars hes hr hle]
  cases hcut : cutAt script p with
  | none => simp
  | some parts =>
      obtain ⟨l, r⟩ := parts
      -- Brackets at the point have been in the text, or have been written by an edit before.
      rw [← exists_weave_eq_brackets_iff hcut hnofill]
      constructor
      · rintro ⟨l', r', h, rfl⟩
        rw [Option.map_some, Option.some.injEq, Prod.mk.injEq] at h
        obtain ⟨rfl, hw⟩ := h
        exact ⟨rfl, ⟨r', hw⟩, (wovenChars_cons_fillDependencies hs hcut hw).symm⟩
      · rintro ⟨-, ⟨r', hw⟩, rfl⟩
        refine ⟨l, r', ?_, wovenChars_cons_fillDependencies hs hcut hw⟩
        rw [Option.map_some, hw]

end Step

/-- **The loop.**  A sorted batch without equal keys goes through exactly on the
texts that it is ready for, and leaves the text woven with all that it
writes. -/
theorem applyBackwards_eq_ok_iff {script : List Char} {es : List Edit}
    (hs : es.Pairwise Edit.Before) (out : List Char) :
    applyBackwards script es = .ok out ↔ Ready script es ∧ out = wovenChars script es := by
  -- The head is applied last, so it meets the text that the induction describes.
  induction es generalizing out with
  | nil =>
      have hready : Ready script [] := ⟨by simp, by simp⟩
      have hsame : wovenChars script [] = script := Text.weave_silent script 0
      rw [hsame]
      show Except.ok script = Except.ok out ↔ _
      rw [Except.ok.injEq]
      exact ⟨fun h => ⟨hready, h.symm⟩, fun h => h.2.symm⟩
  | cons e es ih =>
      obtain ⟨he, hes⟩ := List.pairwise_cons.mp hs
      have hstep : Ready script es →
          (Edit.apply (wovenChars script es) e = .ok out
            ↔ (cutAt script e.point).isSome = true
              ∧ (e.kind = .fillDependencies → InsertsAt es e.point
                ∨ (HasBrackets script e.point ∧ ¬ InsertsAt es (e.point + 1)))
              ∧ out = wovenChars script (e :: es)) := by
        intro hr
        cases e with
        | addEmptyArray scope p =>
            rw [apply_addEmptyArray_wovenChars hs hr]
            simp [Edit.point, Edit.kind]
        | fillDependencies scope p modules =>
            rw [apply_fillDependencies_wovenChars hs hr]
            simp [Edit.point, Edit.kind]
      rw [ready_cons_iff he]
      show (applyBackwards script es >>= fun t => Edit.apply t e) = .ok out ↔ _
      cases hmid : applyBackwards script es with
      | error fault =>
          have hnot : ¬ Ready script es := by
            intro hr
            rw [(ih hes _).mpr ⟨hr, rfl⟩] at hmid
            cases hmid
          exact ⟨fun h => (by cases h), fun h => absurd h.1.1 hnot⟩
      | ok mid =>
          obtain ⟨hr, rfl⟩ := (ih hes mid).mp hmid
          show Edit.apply (wovenChars script es) e = .ok out ↔ _
          rw [hstep hr]
          simp only [hr, true_and, and_assoc]

/-! ## §3. Batches. -/

/-- The batch fits the source: every edit lies inside its statement and on a
boundary of the source, no two have an offset and a kind in common, and every
array that is filled is inserted by the batch or stands in the source. -/
structure Fits (source : String) (edits : List Edit) : Prop where
  inside : ∀ e ∈ edits, e.scope.start ≤ e.point ∧ e.point ≤ e.scope.stop
  distinct : edits.Pairwise fun a b => ¬ (a.point = b.point ∧ a.kind = b.kind)
  onBoundary : ∀ e ∈ edits, (String.Pos.Raw.mk e.point).IsValid source
  hasArray : ∀ e ∈ edits, e.kind = .fillDependencies →
    InsertsAt edits e.point
      ∨ (HasBrackets source.toList e.point ∧ ¬ InsertsAt edits (e.point + 1))

/-- The source with everything that the batch writes. -/
def woven (source : String) (edits : List Edit) : String :=
  String.ofList (wovenChars source.toList edits)

theorem insertsAt_perm {es es' : List Edit} (h : es.Perm es') (n : Nat) :
    InsertsAt es n ↔ InsertsAt es' n := by
  unfold InsertsAt
  simp only [h.mem_iff]

/-- Edits of one kind at one offset are one edit, so their order is no matter. -/
theorem modulesAt_perm {es es' : List Edit} (h : es.Perm es')
    (hd : es.Pairwise fun a b => ¬ (a.point = b.point ∧ a.kind = b.kind)) (n : Nat) :
    modulesAt es n = modulesAt es' n := by
  have hperm := h.filter fun e : Edit => e.kind = .fillDependencies ∧ e.point = n
  have hpair := hd.filter fun e : Edit => e.kind = .fillDependencies ∧ e.point = n
  have hmem : ∀ e ∈ es.filter (fun e : Edit => e.kind = .fillDependencies ∧ e.point = n),
      e.kind = .fillDependencies ∧ e.point = n := by
    intro e he
    simpa using (List.mem_filter.mp he).2
  unfold modulesAt
  -- What is left by the filter has one entry at most.
  generalize es.filter (fun e : Edit => e.kind = .fillDependencies ∧ e.point = n) = fs at *
  match fs with
  | [] => rw [← hperm.nil_eq]
  | [e] => rw [List.singleton_perm.mp hperm]
  | a :: b :: rest =>
      have ha := hmem a (by simp)
      have hb := hmem b (by simp)
      have hne := (List.pairwise_cons.mp hpair).1 b List.mem_cons_self
      exact absurd ⟨ha.2.trans hb.2.symm, ha.1.trans hb.1.symm⟩ hne

theorem woven_perm {es es' : List Edit} (h : es.Perm es')
    (hd : es.Pairwise fun a b => ¬ (a.point = b.point ∧ a.kind = b.kind)) (source : String) :
    woven source es = woven source es' := by
  have harray : newArray es = newArray es' := by
    funext n
    unfold newArray
    simp only [insertsAt_perm h, modulesAt_perm h hd]
  have hitems : newItems es = newItems es' := by
    funext n
    unfold newItems
    simp only [insertsAt_perm h, modulesAt_perm h hd]
  unfold woven wovenChars
  rw [harray, hitems]

theorem Fits.perm {es es' : List Edit} {source : String} (h : es.Perm es')
    (hf : Fits source es) : Fits source es' where
  inside := fun e he => hf.inside e (h.mem_iff.mpr he)
  distinct := Edit.pairwise_distinct_perm h hf.distinct
  onBoundary := fun e he => hf.onBoundary e (h.mem_iff.mpr he)
  hasArray := fun e he hk => by
    rw [← insertsAt_perm h, ← insertsAt_perm h]
    exact hf.hasArray e (h.mem_iff.mpr he) hk

/-- The batch fits if and only if all checks on its sorted list pass. -/
theorem fits_sort_iff (source : String) (edits : List Edit) :
    Fits source (Edit.sort edits)
      ↔ checkScopes (Edit.sort edits) = .ok ()
        ∧ checkCollisions (Edit.sort edits) = .ok ()
        ∧ Ready source.toList (Edit.sort edits) := by
  have hle := Edit.sort_pairwise edits
  rw [checkScopes_eq_ok_iff, checkCollisions_eq_ok_iff hle]
  constructor
  · rintro ⟨hin, hd, hb, ha⟩
    refine ⟨hin, Edit.pairwise_before hle hd, fun e he => ?_, ha⟩
    exact (Text.isValid_iff_isSome_cutAt source e.point).mp (hb e he)
  · rintro ⟨hin, hd, hr⟩
    refine ⟨hin, hd.imp ?_, fun e he => ?_, hr.hasArray⟩
    · intro a b hab hk
      exact hab.not_sameKey ((Edit.sameKey_iff a b).mpr hk)
    · exact (Text.isValid_iff_isSome_cutAt source e.point).mpr (hr.onBoundary e he)

theorem execute_sorted_eq_ok_iff (source out : String) (edits : List Edit) :
    execute source edits = .ok out
      ↔ Fits source (Edit.sort edits) ∧ out = woven source (Edit.sort edits) := by
  rw [fits_sort_iff]
  show (checkScopes (Edit.sort edits) >>= fun _ => checkCollisions (Edit.sort edits) >>= fun _ =>
      applyBackwards source.toList (Edit.sort edits) >>= fun t =>
        pure (String.ofList t)) = .ok out ↔ _
  -- Where a stage fails, one of the three conditions is the one that it checks.
  cases hscope : checkScopes (Edit.sort edits) with
  | error fault => exact ⟨fun h => (by cases h), fun h => (by cases h.1.1)⟩
  | ok u =>
      cases hcoll : checkCollisions (Edit.sort edits) with
      | error fault => exact ⟨fun h => (by cases h), fun h => (by cases h.1.2.1)⟩
      | ok v =>
          have hs := (checkCollisions_eq_ok_iff (Edit.sort_pairwise edits)).mp hcoll
          have hloop : ∀ t, applyBackwards source.toList (Edit.sort edits) = .ok t
              ↔ Ready source.toList (Edit.sort edits)
                ∧ t = wovenChars source.toList (Edit.sort edits) :=
            applyBackwards_eq_ok_iff hs
          cases happly : applyBackwards source.toList (Edit.sort edits) with
          | error fault =>
              refine ⟨fun h => (by cases h), fun h => ?_⟩
              rw [(hloop _).mpr ⟨h.1.2.2, rfl⟩] at happly
              cases happly
          | ok t =>
              obtain ⟨hr, rfl⟩ := (hloop t).mp happly
              constructor
              · intro h
                cases h
                exact ⟨⟨rfl, rfl, hr⟩, rfl⟩
              · rintro ⟨-, rfl⟩
                rfl

/-- A batch that fits goes through. -/
theorem execute_of_fits {source : String} {edits : List Edit} (h : Fits source edits) :
    execute source edits = .ok (woven source edits) := by
  have hperm := (Edit.sort_perm edits).symm
  rw [execute_sorted_eq_ok_iff, woven_perm hperm h.distinct]
  exact ⟨h.perm hperm, rfl⟩

/-- A batch that goes through fits, and leaves the woven source. -/
theorem fits_of_execute {source out : String} {edits : List Edit}
    (h : execute source edits = .ok out) :
    Fits source edits ∧ out = woven source edits := by
  obtain ⟨hf, rfl⟩ := (execute_sorted_eq_ok_iff source out edits).mp h
  exact ⟨hf.perm (Edit.sort_perm edits), woven_perm (Edit.sort_perm edits) hf.distinct source⟩

/-- **Batches, on the original source alone.**  A batch goes through exactly
when (a) every edit lies inside its statement, (b) no two edits have an offset
and a kind in common, (c) every offset is a boundary of the source, and (d)
every array that is filled is inserted at the same offset, or stands in the
source with nothing inserted between its brackets.  The result is one pass over
the source: an inserted array, its items in it, comes before the character at
its offset, the items of an old array come behind its opening bracket, and the
characters of the source stay as they are. -/
theorem execute_eq_ok_iff (source out : String) (edits : List Edit) :
    execute source edits = .ok out
      ↔ (∀ e ∈ edits, e.scope.start ≤ e.point ∧ e.point ≤ e.scope.stop)
        ∧ (edits.Pairwise fun a b => ¬ (a.point = b.point ∧ a.kind = b.kind))
        ∧ (∀ e ∈ edits, (String.Pos.Raw.mk e.point).IsValid source)
        ∧ (∀ e ∈ edits, e.kind = .fillDependencies →
            InsertsAt edits e.point
              ∨ (HasBrackets source.toList e.point ∧ ¬ InsertsAt edits (e.point + 1)))
        ∧ out = String.ofList (weave (newArray edits) (newItems edits) 0 source.toList) := by
  constructor
  · intro h
    obtain ⟨⟨hin, hd, hb, ha⟩, hout⟩ := fits_of_execute h
    exact ⟨hin, hd, hb, ha, hout⟩
  · rintro ⟨hin, hd, hb, ha, rfl⟩
    exact execute_of_fits ⟨hin, hd, hb, ha⟩

/-! ## §4. The order of a batch. -/

/-- **The order in which edits are given is no matter.**  If a batch goes
through, so does every rearrangement of it, with the same text; if it is refused,
so is every rearrangement.  The faults are the same, too, unless two edits
have an offset and a kind in common: such edits stay in the order in which
they are given, and the first of them is the one that a fault names. -/
theorem execute_perm (source : String) {es es' : List Edit} (h : es.Perm es') :
    ((∃ out, execute source es = .ok out ∧ execute source es' = .ok out)
        ∨ ∃ fault fault', execute source es = .error fault ∧ execute source es' = .error fault')
      ∧ ((es.Pairwise fun a b => ¬ (a.point = b.point ∧ a.kind = b.kind)) →
          execute source es = execute source es') := by
  constructor
  · cases hexec : execute source es with
    | ok out =>
        -- A batch that goes through fits, and what fits is a matter of its members.
        obtain ⟨hf, rfl⟩ := fits_of_execute hexec
        refine Or.inl ⟨woven source es, rfl, ?_⟩
        rw [execute_of_fits (hf.perm h), woven_perm h hf.distinct]
    | error fault =>
        cases hexec' : execute source es' with
        | ok out =>
            have hf := (fits_of_execute hexec').1
            rw [execute_of_fits (hf.perm h.symm)] at hexec
            cases hexec
        | error fault' => exact Or.inr ⟨fault, fault', rfl, rfl⟩
  · intro hd
    unfold execute
    rw [Edit.sort_eq_of_perm h hd]

/-- An array that is not there is to be filled behind an edit that leaves its
statement: the fault is that of the second edit, whichever is given first. -/
theorem execute_perm_swapped :
    [Edit.fillDependencies ⟨0, 12⟩ 10 ["a"], .addEmptyArray ⟨5, 12⟩ 3].Perm
        [.addEmptyArray ⟨5, 12⟩ 3, .fillDependencies ⟨0, 12⟩ 10 ["a"]]
      ∧ ([Edit.fillDependencies ⟨0, 12⟩ 10 ["a"], .addEmptyArray ⟨5, 12⟩ 3].Pairwise
          fun a b => ¬ (a.point = b.point ∧ a.kind = b.kind))
      ∧ execute "define(x, y)" [.fillDependencies ⟨0, 12⟩ 10 ["a"], .addEmptyArray ⟨5, 12⟩ 3]
          = .error (.outsideStatement .addEmptyArray 3 ⟨5, 12⟩)
      ∧ execute "define(x, y)" [.fillDependencies ⟨0, 12⟩ 10 ["a"], .addEmptyArray ⟨5, 12⟩ 3]
          = execute "define(x, y)" [.addEmptyArray ⟨5, 12⟩ 3, .fillDependencies ⟨0, 12⟩ 10 ["a"]] := by
  have hperm := List.Perm.swap (Edit.addEmptyArray ⟨5, 12⟩ 3) (.fillDependencies ⟨0, 12⟩ 10 ["a"]) []
  have hd : [Edit.fillDependencies ⟨0, 12⟩ 10 ["a"], .addEmptyArray ⟨5, 12⟩ 3].Pairwise
      fun a b => ¬ (a.point = b.point ∧ a.kind = b.kind) := by decide
  exact ⟨hperm, hd, rfl, (execute_perm "define(x, y)" hperm).2 hd⟩

example :
    execute "define()" [.addEmptyArray ⟨0, 1⟩ 7, .addEmptyArray ⟨0, 2⟩ 7]
      ≠ execute "define()" [.addEmptyArray ⟨0, 2⟩ 7, .addEmptyArray ⟨0, 1⟩ 7] := by
  intro h
  cases h

end AmdKit.Amd
