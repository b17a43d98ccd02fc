/-
  AmdKit.Proofs.EditOrder
  ────────────────────────────────
  **SORTING AND CHECKING A BATCH.**

  `Before` is the strict order in which a batch without equal keys stands once
  it is sorted, whatever order it was given in.  Sorting keeps the edits, and on a
  sorted batch the two checks say what they mean for all edits and all pairs of
  them:

      checkScopes es = .ok ()      ↔  every edit lies inside its statement
      checkCollisions es = .ok ()  ↔  es.Pairwise Before

  The last section says when a single edit applies.
-/
import AmdKit.Amd.Patch
import AmdKit.Proofs.Weave

namespace AmdKit.Amd

open Text (cutAt)

/-! ## §1. The order of a batch. -/

namespace Edit

/-- The edit is applied after another one, and works before its place. -/
def Before (a b : Edit) : Prop :=
  a.point < b.point ∨ a.point = b.point ∧ a.kind.rank < b.kind.rank

/-- An edit may stand in front of another one if its point is smaller, or if the points
are the same and its kind ranks no higher. -/
theorem le_iff (a b : Edit) :
    a.le b = true ↔ a.point < b.point ∨ a.point = b.point ∧ a.kind.rank ≤ b.kind.rank := by
  simp [Edit.le]

/-- Any two edits can be put in order. -/
theorem le_total (a b : Edit) : a.le b = true ∨ b.le a = true := by
  rw [le_iff, le_iff]
  omega

/-- The order of a batch is transitive. -/
theorem le_trans {a b c : Edit} (hab : a.le b = true) (hbc : b.le c = true) :
    a.le c = true := by
  rw [le_iff] at hab hbc ⊢
  omega

/-- Edits have the same key if they have the same point and the same kind. -/
theorem sameKey_iff (a b : Edit) :
    a.sameKey b = true ↔ a.point = b.point ∧ a.kind = b.kind := by
  simp [Edit.sameKey]

/-- The rank of a kind tells it apart from the other one. -/
theorem rank_injective {a b : EditKind} (h : a.rank = b.rank) : a = b := by
  cases a <;> cases b <;> first | rfl | exact absurd h (by decide)

/-- Edits in order, with keys that differ, are strictly in order. -/
theorem before_of_le {a b : Edit} (hle : a.le b = true) (hne : ¬ a.sameKey b = true) :
    a.Before b := by
  rw [le_iff] at hle
  rw [sameKey_iff] at hne
  rcases hle with h | ⟨hp, hr⟩
  · exact Or.inl h
  · have hrank : a.kind.rank ≠ b.kind.rank := fun h => hne ⟨hp, rank_injective h⟩
    exact Or.inr ⟨hp, by omega⟩

/-- Points never fall along the strict order. -/
theorem Before.point_le {a b : Edit} (h : a.Before b) : a.point ≤ b.point := by
  unfold Before at h
  omega

theorem Before.not_sameKey {a b : Edit} (h : a.Before b) : ¬ a.sameKey b = true := by
  intro hk
  rw [sameKey_iff] at hk
  unfold Before at h
  rw [hk.2] at h
  omega

/-- Insertion neither loses an edit nor repeats one. -/
theorem insert_perm (e : Edit) (es : List Edit) : (insert e es).Perm (e :: es) := by
  induction es with
  | nil => exact List.Perm.refl _
  | cons x xs ih =>
      unfold insert
      split
      · exact List.Perm.refl _
      · exact (ih.cons x).trans (List.Perm.swap e x xs)

/-- A sorted batch has the edits of the batch, each as often as there. -/
theorem sort_perm (es : List Edit) : (sort es).Perm es := by
  induction es with
  | nil => exact List.Perm.refl _
  | cons e es ih => exact (insert_perm e (sort es)).trans (ih.cons e)

/-- Insertion keeps a sorted batch sorted. -/
theorem insert_pairwise (e : Edit) {es : List Edit}
    (h : es.Pairwise fun a b => a.le b = true) :
    (insert e es).Pairwise fun a b => a.le b = true := by
  induction es with
  | nil => exact List.pairwise_singleton _ _
  | cons x xs ih =>
      obtain ⟨hx, hxs⟩ := List.pairwise_cons.mp h
      unfold insert
      split
      -- The edit goes in front of the first one that it may stand in front of.
      next hle =>
        refine List.pairwise_cons.mpr ⟨?_, h⟩
        intro y hy
        rcases List.mem_cons.mp hy with rfl | hy
        · exact hle
        · exact le_trans hle (hx y hy)
      next hle =>
        refine List.pairwise_cons.mpr ⟨?_, ih hxs⟩
        intro y hy
        rcases List.mem_cons.mp ((insert_perm e xs).mem_iff.mp hy) with rfl | hy
        · exact (le_total y x).resolve_left hle
        · exact hx y hy

/-- A sorted batch is in order. -/
theorem sort_pairwise (es : List Edit) :
    (sort es).Pairwise fun a b => a.le b = true := by
  induction es with
  | nil => exact List.Pairwise.nil
  | cons e es ih => exact insert_pairwise e ih

/-- A batch in order, no two edits of which share point and kind, is strictly in order. -/
theorem pairwise_before {es : List Edit} (hle : es.Pairwise fun a b => a.le b = true)
    (hd : es.Pairwise fun a b => ¬ (a.point = b.point ∧ a.kind = b.kind)) :
    es.Pairwise Before := by
  refine (hle.and hd).imp ?_
  intro a b hab
  exact before_of_le hab.1 (fun hk => hab.2 ((sameKey_iff a b).mp hk))

/-- That no two edits share point and kind does not depend on their order. -/
theorem pairwise_distinct_perm {es es' : List Edit} (h : es.Perm es')
    (hd : es.Pairwise fun a b => ¬ (a.point = b.point ∧ a.kind = b.kind)) :
    es'.Pairwise fun a b => ¬ (a.point = b.point ∧ a.kind = b.kind) := by
  refine (h.pairwise_iff ?_).mp hd
  intro a b hab hba
  exact hab ⟨hba.1.symm, hba.2.symm⟩

/-- Edits with keys of their own can be sorted in one way only. -/
theorem sort_eq_of_perm {es es' : List Edit} (h : es.Perm es')
    (hd : es.Pairwise fun a b => ¬ (a.point = b.point ∧ a.kind = b.kind)) :
    sort es = sort es' := by
  -- Both sorted batches are strictly in order, since no key is there twice.
  have hsorted : ∀ xs : List Edit, es.Perm xs → (sort xs).Pairwise Before := by
    intro xs hxs
    have hperm : es.Perm (sort xs) := hxs.trans (sort_perm xs).symm
    exact pairwise_before (sort_pairwise xs) (pairwise_distinct_perm hperm hd)
  -- The order is strict, so two lists that stand in it differ in no place.
  have hasymm : ∀ a b : Edit, a ∈ sort es → b ∈ sort es' → a.Before b → b.Before a → a = b := by
    intro a b _ _ hab hba
    unfold Before at hab hba
    omega
  have hperm : (sort es).Perm (sort es') := (sort_perm es).trans (h.trans (sort_perm es').symm)
  exact List.Perm.eq_of_pairwise hasymm (hsorted es (List.Perm.refl es)) (hsorted es' h) hperm

end Edit

/-! ## §2. The two checks. -/

/-- The first check passes exactly if every edit has its point in the range of its scope.
-/
theorem checkScopes_eq_ok_iff (es : List Edit) :
    checkScopes es = .ok ()
      ↔ ∀ e ∈ es, e.scope.start ≤ e.point ∧ e.point ≤ e.scope.stop := by
  induction es with
  | nil => simp [checkScopes]
  | cons e es ih =>
      have htouch : e.scope.touches e.point = true
          ↔ e.scope.start ≤ e.point ∧ e.point ≤ e.scope.stop := by
        simp [Text.Span.touches]
      rw [List.forall_mem_cons, ← ih, ← htouch]
      show (if e.scope.touches e.point then checkScopes es else _) = _ ↔ _
      by_cases h : e.scope.touches e.point = true
      · simp [h]
      · simp [h]

/-- In a sorted batch equal keys are neighbours. -/
theorem checkCollisions_eq_ok_iff {es : List Edit}
    (hs : es.Pairwise fun a b => a.le b = true) :
    checkCollisions es = .ok () ↔ es.Pairwise Edit.Before := by
  induction es with
  | nil => simp [checkCollisions]
  | cons a es ih =>
      obtain ⟨ha, hes⟩ := List.pairwise_cons.mp hs
      -- The check looks at neighbours only, so the induction takes two edits at a time.
      cases es with
      | nil => simp [checkCollisions]
      | cons b es =>
          show (if a.sameKey b then _ else checkCollisions (b :: es)) = _ ↔ _
          by_cases hk : a.sameKey b = true
          · rw [if_pos hk]
            refine ⟨fun h => (by cases h), fun h => ?_⟩
            exact absurd hk ((List.pairwise_cons.mp h).1 b List.mem_cons_self).not_sameKey
          · rw [if_neg hk, ih hes, List.pairwise_cons (a := a)]
            refine ⟨fun h => ⟨?_, h⟩, fun h => h.2⟩
            -- `a` is before its neighbour `b`, and `b` is before all the others.
            have hab := Edit.before_of_le (ha b List.mem_cons_self) hk
            intro c hc
            rcases List.mem_cons.mp hc with rfl | hc
            · exact hab
            · have hbc := (List.pairwise_cons.mp h).1 c hc
              unfold Edit.Before at hab hbc ⊢
              omega

/-! ## §3. One edit. -/

/-- A new array goes in exactly where its point is a character boundary, with the comma
behind it. -/
theorem apply_addEmptyArray_eq_ok_iff (script out : List Char) (scope : Text.Span) (p : Nat) :
    Edit.apply script (.addEmptyArray scope p) = .ok out
      ↔ ∃ l r, cutAt script p = some (l, r) ∧ out = l ++ '[' :: ']' :: ',' :: r := by
  unfold Edit.apply
  rw [show (Edit.addEmptyArray scope p).point = p from rfl]
  cases h : cutAt script p with
  | none => simp
  | some parts =>
      obtain ⟨l, r⟩ := parts
      constructor
      · intro hok
        cases hok
        exact ⟨l, r, rfl, rfl⟩
      · rintro ⟨l', r', hcut, rfl⟩
        cases hcut
        rfl

/-- Modules go in exactly where an empty array stands at the point: behind its opening
bracket, and all else is kept. -/
theorem apply_fillDependencies_eq_ok_iff (script out : List Char) (scope : Text.Span) (p : Nat)
    (modules : List String) :
    Edit.apply script (.fillDependencies scope p modules) = .ok out
      ↔ ∃ l r, cutAt script p = some (l, '[' :: ']' :: r)
          ∧ out = l ++ '[' :: (Json.quotedList modules ++ ']' :: r) := by
  unfold Edit.apply
  rw [show (Edit.fillDependencies scope p modules).point = p from rfl]
  constructor
  · intro h
    split at h
    next => cases h
    next he => cases he
    next hcut he =>
      cases he
      cases h
      exact ⟨_, _, hcut, rfl⟩
    next => cases h
  · rintro ⟨l, r, hcut, rfl⟩
    rw [hcut]
    rfl

end AmdKit.Amd
