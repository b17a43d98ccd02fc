/-
  AmdKit.Proofs.KeyedLists
  ────────────────────────────────
  **THE ALGEBRA OF LISTS WITH KEYS.**

  Entries are stored one after the other, each combined with the entry that has
  its key.  If combining is associative, a list of entries that has been stored
  once can take the place of the entries themselves:

      upsertAll (upsertAll xs []) acc  =  upsertAll xs acc

  The reason is local.  Two entries with one key can be combined before they are
  stored, and an entry whose key is there already can be stored earlier or
  later, because it does not open a new place.

  `keepLast` and `keepFirst` are absorbed in the same way: dropping repeated
  keys from a part first makes no difference to the whole.
-/
import AmdKit.Keyed

namespace AmdKit.Keyed

variable {α κ : Type} [DecidableEq κ] {key : α → κ} {combine : α → α → α}

/-! ## §1. Storing one entry. -/

/-- Combining keeps the key and is associative. -/
structure Associative (key : α → κ) (combine : α → α → α) : Prop where
  key_combine : ∀ a b, key b = key a → key (combine a b) = key a
  assoc : ∀ a b c, combine (combine a b) c = combine a (combine b c)

/-- Replacing an entry is one way to put two of them together. -/
theorem replace_associative {α κ : Type} {key : α → κ} :
    Associative key (fun _ new => new) where
  key_combine _ _ hkey := hkey
  assoc _ _ _ := rfl

/-- What has been stored is there. -/
theorem key_mem_upsert (h : Associative key combine) (x : α) (acc : List α) :
    key x ∈ (upsert key combine x acc).map key := by
  induction acc with
  | nil => simp [upsert]
  | cons y ys ih =>
      unfold upsert
      by_cases hy : key y = key x
      · simp [hy, h.key_combine y x hy.symm]
      · simp [hy, ih]

/-- Storing an entry adds its key and no other. -/
theorem mem_keys_upsert (h : Associative key combine) {x : α} {acc : List α} {k : κ} :
    k ∈ (upsert key combine x acc).map key ↔ k = key x ∨ k ∈ acc.map key := by
  induction acc with
  | nil => simp [upsert]
  | cons y ys ih =>
      unfold upsert
      by_cases hy : key y = key x
      · simp [hy, h.key_combine y x hy.symm]
      · rw [if_neg hy, List.map_cons, List.mem_cons, ih, List.map_cons, List.mem_cons]
        exact or_left_comm

/-- No key is stored twice. -/
theorem nodup_keys_upsert (h : Associative key combine) {x : α} {acc : List α}
    (hn : (acc.map key).Nodup) : ((upsert key combine x acc).map key).Nodup := by
  induction acc with
  | nil => simp [upsert]
  | cons y ys ih =>
      rw [List.map_cons, List.nodup_cons] at hn
      unfold upsert
      by_cases hy : key y = key x
      · rw [if_pos hy, List.map_cons, h.key_combine y x hy.symm, List.nodup_cons]
        exact hn
      · rw [if_neg hy, List.map_cons, List.nodup_cons, mem_keys_upsert h]
        refine ⟨?_, ih hn.2⟩
        rintro (hk | hk)
        · exact hy hk
        · exact hn.1 hk

/-- An entry whose key is new is appended. -/
theorem upsert_of_notMem {x : α} {acc : List α} (hx : key x ∉ acc.map key) :
    upsert key combine x acc = acc ++ [x] := by
  induction acc with
  | nil => rfl
  | cons y ys ih =>
      rw [List.map_cons, List.mem_cons, not_or] at hx
      rw [upsert, if_neg (fun hy => hx.1 hy.symm), ih hx.2, List.cons_append]

theorem mem_put {x y : α} {acc : List α} (h : y ∈ put key x acc) : y = x ∨ y ∈ acc := by
  unfold put at h
  induction acc with
  | nil => exact Or.inl (List.mem_singleton.mp h)
  | cons z zs ih =>
      rw [upsert] at h
      split at h
      · exact (List.mem_cons.mp h).imp_right (List.mem_cons_of_mem z)
      · rcases List.mem_cons.mp h with rfl | h
        · exact Or.inr List.mem_cons_self
        · exact (ih h).imp_right (List.mem_cons_of_mem z)

/-- Two entries with one key can be combined before they are stored. -/
theorem upsert_upsert (h : Associative key combine) {x y : α} (hxy : key y = key x)
    (acc : List α) :
    upsert key combine y (upsert key combine x acc)
      = upsert key combine (combine x y) acc := by
  have hkey := h.key_combine x y hxy
  induction acc with
  | nil => simp [upsert, hxy]
  | cons z acc ih =>
      by_cases hz : key z = key x
      · have hzx := h.key_combine z x hz.symm
        simp [upsert, hz, hzx, hxy, hkey, h.assoc]
      · simp [upsert, hz, hxy, hkey, ih]

/-- An entry whose key is there already can be stored before another one. -/
theorem upsert_comm (h : Associative key combine) {x y : α} (hxy : key x ≠ key y)
    {acc : List α} (hx : key x ∈ acc.map key) :
    upsert key combine x (upsert key combine y acc)
      = upsert key combine y (upsert key combine x acc) := by
  induction acc with
  | nil => simp at hx
  | cons z acc ih =>
      by_cases hzx : key z = key x
      · have hzy : ¬ key z = key y := fun hzy => hxy (hzx.symm.trans hzy)
        have hkey := h.key_combine z x hzx.symm
        have hne : ¬ key (combine z x) = key y := fun hk => hzy (hkey.symm.trans hk)
        rw [upsert, if_neg hzy, upsert, if_pos hzx, upsert, if_pos hzx, upsert, if_neg hne]
      · have hmem : key x ∈ acc.map key := by
          rw [List.map_cons, List.mem_cons] at hx
          exact hx.resolve_left fun hk => hzx hk.symm
        by_cases hzy : key z = key y
        · have hkey := h.key_combine z y hzy.symm
          have hne : ¬ key (combine z y) = key x := fun hk => hzx (hkey.symm.trans hk)
          rw [upsert, if_pos hzy, upsert, if_neg hne, upsert, if_neg hzx, upsert, if_pos hzy]
        · rw [upsert, if_neg hzy, upsert, if_neg hzx, upsert, if_neg hzx, upsert, if_neg hzy,
              ih hmem]

/-! ## §2. Storing many entries. -/

theorem upsertAll_cons (x : α) (xs acc : List α) :
    upsertAll key combine (x :: xs) acc
      = upsertAll key combine xs (upsert key combine x acc) := rfl

/-- Storing entries and then more is storing all of them. -/
theorem upsertAll_append (xs ys acc : List α) :
    upsertAll key combine (xs ++ ys) acc
      = upsertAll key combine ys (upsertAll key combine xs acc) := by
  unfold upsertAll
  rw [List.foldl_append]

/-- Neither is one when many entries are stored. -/
theorem nodup_keys_upsertAll (h : Associative key combine)
    {xs acc : List α} (hn : (acc.map key).Nodup) :
    ((upsertAll key combine xs acc).map key).Nodup := by
  induction xs generalizing acc with
  | nil => exact hn
  | cons x xs ih => exact ih (nodup_keys_upsert h hn)

/-- Entries with distinct keys are appended as they are. -/
theorem upsertAll_of_nodup {xs acc : List α} (h : ((acc ++ xs).map key).Nodup) :
    upsertAll key combine xs acc = acc ++ xs := by
  induction xs generalizing acc with
  | nil => exact (List.append_nil acc).symm
  | cons x xs ih =>
      have hx : key x ∉ acc.map key := by
        rw [List.map_append, List.map_cons, List.nodup_append] at h
        exact fun hmem => h.2.2 _ hmem _ List.mem_cons_self rfl
      have happend : acc ++ x :: xs = acc ++ [x] ++ xs := by
        rw [List.append_assoc, List.singleton_append]
      rw [upsertAll_cons, upsert_of_notMem hx, ih (happend ▸ h), happend]

/-- An entry whose key is there already can be stored before many others. -/
theorem upsertAll_upsert_comm (h : Associative key combine) {x : α} {ys : List α}
    (hys : key x ∉ ys.map key) {acc : List α} (hx : key x ∈ acc.map key) :
    upsertAll key combine ys (upsert key combine x acc)
      = upsert key combine x (upsertAll key combine ys acc) := by
  induction ys generalizing acc with
  | nil => rfl
  | cons y ys ih =>
      rw [List.map_cons, List.mem_cons, not_or] at hys
      rw [upsertAll_cons, upsertAll_cons, ← upsert_comm h hys.1 hx]
      exact ih hys.2 ((mem_keys_upsert h).mpr (Or.inr hx))

/-- Storing a list that one more entry has been stored in. -/
theorem upsertAll_upsert (h : Associative key combine) {x : α} {stored : List α}
    (hn : (stored.map key).Nodup) (acc : List α) :
    upsertAll key combine (upsert key combine x stored) acc
      = upsert key combine x (upsertAll key combine stored acc) := by
  induction stored generalizing acc with
  | nil => rfl
  | cons m stored ih =>
      rw [List.map_cons, List.nodup_cons] at hn
      by_cases hm : key m = key x
      · -- `x` is combined with `m` in the list, or is stored right behind it: with its
        -- key in the list already, it can be moved over the entries that follow.
        have hmem : key x ∈ (upsert key combine m acc).map key :=
          hm ▸ key_mem_upsert h m acc
        rw [upsert, if_pos hm, upsertAll_cons, upsertAll_cons,
            ← upsert_upsert h hm.symm acc, upsertAll_upsert_comm h (hm ▸ hn.1) hmem]
      · rw [upsert, if_neg hm, upsertAll_cons, upsertAll_cons, ih hn.2]

/-- **Stored entries take the place of the entries themselves.** -/
theorem upsertAll_upsertAll (h : Associative key combine) (xs : List α) {stored : List α}
    (hn : (stored.map key).Nodup) (acc : List α) :
    upsertAll key combine (upsertAll key combine xs stored) acc
      = upsertAll key combine xs (upsertAll key combine stored acc) := by
  induction xs generalizing stored with
  | nil => rfl
  | cons x xs ih =>
      rw [upsertAll_cons, upsertAll_cons, ih (nodup_keys_upsert h hn), upsertAll_upsert h hn]

/-- What holds of every entry and survives combining holds of what is stored. -/
theorem forall_mem_upsertAll {P : α → Prop} (hcombine : ∀ a b, P (combine a b))
    {xs : List α} (hxs : ∀ x ∈ xs, P x) {acc : List α} (hacc : ∀ a ∈ acc, P a) :
    ∀ a ∈ upsertAll key combine xs acc, P a := by
  have hstep : ∀ (x : α) (acc : List α), P x → (∀ a ∈ acc, P a) →
      ∀ a ∈ upsert key combine x acc, P a := by
    intro x acc hx hacc
    induction acc with
    | nil => simpa [upsert] using hx
    | cons y ys ih =>
        rw [List.forall_mem_cons] at hacc
        unfold upsert
        split
        · exact List.forall_mem_cons.mpr ⟨hcombine y x, hacc.2⟩
        · exact List.forall_mem_cons.mpr ⟨hacc.1, ih hacc.2⟩
  induction xs generalizing acc with
  | nil => exact hacc
  | cons x xs ih =>
      rw [List.forall_mem_cons] at hxs
      rw [upsertAll_cons]
      exact ih hxs.2 (hstep x acc hxs.1 hacc)

/-- What is done to every entry can be done to the stored ones instead. -/
theorem map_upsertAll {β : Type} {keyOf : β → κ} {append : α → α → α} {replace : β → β → β}
    {f : α → β} (hkey : ∀ a, keyOf (f a) = key a)
    (hf : ∀ a b, f (append a b) = replace (f a) (f b)) (xs acc : List α) :
    (upsertAll key append xs acc).map f = upsertAll keyOf replace (xs.map f) (acc.map f) := by
  have hstep : ∀ (x : α) (acc : List α),
      (upsert key append x acc).map f = upsert keyOf replace (f x) (acc.map f) := by
    intro x acc
    induction acc with
    | nil => rfl
    | cons y ys ih =>
        rw [List.map_cons, upsert, upsert, hkey, hkey]
        by_cases hy : key y = key x
        · rw [if_pos hy, if_pos hy, List.map_cons, hf]
        · rw [if_neg hy, if_neg hy, List.map_cons, ih]
  induction xs generalizing acc with
  | nil => rfl
  | cons x xs ih => rw [List.map_cons, upsertAll_cons, upsertAll_cons, ih, hstep]

/-! ## §3. Dropping repeated keys. -/

/-- Dropping from a part of a list first makes no difference to the whole. -/
structure Absorbs (drop : List α → List α) : Prop where
  left : ∀ xs ys, drop (drop xs ++ ys) = drop (xs ++ ys)
  right : ∀ xs ys, drop (xs ++ drop ys) = drop (xs ++ ys)

/-- Dropping again drops nothing more. -/
theorem Absorbs.idem {drop : List α → List α} (h : Absorbs drop) (xs : List α) :
    drop (drop xs) = drop xs := by
  have hl := h.left xs []
  rwa [List.append_nil, List.append_nil] at hl

/-- Dropping may be done inside of a list, and again at the end. -/
theorem Absorbs.between {drop : List α → List α} (h : Absorbs drop) (before xs after : List α) :
    drop (before ++ drop xs ++ after) = drop (before ++ xs ++ after) := by
  rw [List.append_assoc, ← h.right, h.left, h.right, List.append_assoc]

/-- Or on both sides. -/
theorem Absorbs.both {drop : List α → List α} (h : Absorbs drop) (xs ys : List α) :
    drop (drop xs ++ drop ys) = drop (xs ++ ys) := by
  rw [h.left, h.right]

/-- Or in groups. -/
theorem Absorbs.assoc {drop : List α → List α} (h : Absorbs drop) (xs ys zs : List α) :
    drop (drop (xs ++ ys) ++ zs) = drop (xs ++ drop (ys ++ zs)) := by
  rw [h.left, h.right, List.append_assoc]

/-! ### The last of each key -/

/-- Keeping the last of each key loses no key. -/
theorem mem_keys_keepLast {xs : List α} {k : κ} :
    k ∈ (keepLast key xs).map key ↔ k ∈ xs.map key := by
  induction xs with
  | nil => rfl
  | cons x xs ih =>
      unfold keepLast
      by_cases hx : key x ∈ xs.map key
      · rw [if_pos hx, ih, List.map_cons, List.mem_cons]
        exact ⟨Or.inr, fun hk => hk.elim (fun hk => hk ▸ hx) id⟩
      · rw [if_neg hx, List.map_cons, List.map_cons, List.mem_cons, List.mem_cons, ih]

theorem nodup_keys_keepLast (xs : List α) :
    ((keepLast key xs).map key).Nodup := by
  induction xs with
  | nil => exact List.nodup_nil
  | cons x xs ih =>
      unfold keepLast
      by_cases hx : key x ∈ xs.map key
      · rwa [if_pos hx]
      · rw [if_neg hx, List.map_cons, List.nodup_cons, mem_keys_keepLast]
        exact ⟨hx, ih⟩

/-- An entry is kept unless its key occurs behind it. -/
theorem keepLast_append (xs ys : List α) :
    keepLast key (xs ++ ys)
      = (keepLast key xs).filter (fun x => decide (key x ∉ ys.map key)) ++ keepLast key ys := by
  induction xs with
  | nil => rfl
  | cons x xs ih =>
      have hmem : key x ∈ (xs ++ ys).map key ↔ key x ∈ xs.map key ∨ key x ∈ ys.map key := by
        rw [List.map_append, List.mem_append]
      rw [List.cons_append, keepLast, keepLast]
      by_cases hx : key x ∈ xs.map key
      · rw [if_pos hx, if_pos (hmem.mpr (Or.inl hx)), ih]
      · rw [if_neg hx]
        by_cases hy : key x ∈ ys.map key
        · rw [if_pos (hmem.mpr (Or.inr hy)), List.filter_cons_of_neg (by simpa using hy), ih]
        · rw [if_neg (fun hk => (hmem.mp hk).elim hx hy),
              List.filter_cons_of_pos (by simpa using hy), ih, List.cons_append]

theorem keepLast_keepLast (xs : List α) :
    keepLast key (keepLast key xs) = keepLast key xs := by
  induction xs with
  | nil => rfl
  | cons x xs ih =>
      rw [keepLast]
      by_cases hx : key x ∈ xs.map key
      · rw [if_pos hx, ih]
      · rw [if_neg hx, keepLast, if_neg (fun hk => hx (mem_keys_keepLast.mp hk)), ih]

theorem keepLast_absorbs : Absorbs (keepLast key) where
  left xs ys := by
    rw [keepLast_append, keepLast_append, keepLast_keepLast]
  right xs ys := by
    rw [keepLast_append, keepLast_append, keepLast_keepLast]
    simp only [mem_keys_keepLast]

/-! ### The first of each key -/

/-- Only which keys have been seen counts, not in which order. -/
theorem keepFirstFrom_congr {seen seen' : List κ} (h : ∀ k, k ∈ seen ↔ k ∈ seen')
    (xs : List α) : keepFirstFrom key seen xs = keepFirstFrom key seen' xs := by
  induction xs generalizing seen seen' with
  | nil => rfl
  | cons x xs ih =>
      have hcons : ∀ k, k ∈ key x :: seen ↔ k ∈ key x :: seen' := by
        intro k
        rw [List.mem_cons, List.mem_cons, h]
      unfold keepFirstFrom
      by_cases hx : key x ∈ seen
      · rw [if_pos hx, if_pos ((h _).mp hx), ih h]
      · rw [if_neg hx, if_neg (fun hk => hx ((h _).mpr hk)), ih hcons]

/-- Behind other entries their keys have been seen. -/
theorem keepFirstFrom_append (seen : List κ) (xs ys : List α) :
    keepFirstFrom key seen (xs ++ ys)
      = keepFirstFrom key seen xs ++ keepFirstFrom key (xs.map key ++ seen) ys := by
  induction xs generalizing seen with
  | nil => rfl
  | cons x xs ih =>
      rw [List.cons_append, keepFirstFrom, keepFirstFrom, List.map_cons]
      by_cases hx : key x ∈ seen
      · have hmem : ∀ k, k ∈ xs.map key ++ seen ↔ k ∈ key x :: xs.map key ++ seen := by
          intro k
          simp only [List.cons_append, List.mem_cons, List.mem_append]
          exact ⟨Or.inr, fun hk => hk.elim (fun hk => Or.inr (hk ▸ hx)) id⟩
        rw [if_pos hx, if_pos hx, ih, keepFirstFrom_congr hmem]
      · have hmem : ∀ k, k ∈ xs.map key ++ key x :: seen ↔ k ∈ key x :: xs.map key ++ seen := by
          intro k
          simp only [List.cons_append, List.mem_cons, List.mem_append]
          exact or_left_comm
        rw [if_neg hx, if_neg hx, ih, keepFirstFrom_congr hmem]
        rfl

/-- What was dropped from the list before counts as seen. -/
theorem keepFirstFrom_keepFirstFrom (seen before : List κ) (xs : List α) :
    keepFirstFrom key seen (keepFirstFrom key before xs)
      = keepFirstFrom key (before ++ seen) xs := by
  induction xs generalizing seen before with
  | nil => rfl
  | cons x xs ih =>
      have hseen : key x ∈ before ++ seen ↔ key x ∈ before ∨ key x ∈ seen := List.mem_append
      rw [keepFirstFrom, keepFirstFrom]
      -- An entry may be dropped by the inner pass, by the outer one, or by none.
      by_cases hb : key x ∈ before
      · rw [if_pos hb, if_pos (hseen.mpr (Or.inl hb)), ih]
      · rw [if_neg hb, keepFirstFrom]
        by_cases hs : key x ∈ seen
        · have hmem : ∀ k, k ∈ key x :: before ++ seen ↔ k ∈ before ++ seen := by
            intro k
            simp only [List.cons_append, List.mem_cons, List.mem_append]
            exact ⟨fun hk => hk.elim (fun hk => Or.inr (hk ▸ hs)) id, Or.inr⟩
          rw [if_pos hs, if_pos (hseen.mpr (Or.inr hs)), ih, keepFirstFrom_congr hmem]
        · have hmem : ∀ k, k ∈ key x :: before ++ key x :: seen ↔ k ∈ key x :: (before ++ seen) := by
            intro k
            simp only [List.cons_append, List.mem_cons, List.mem_append]
            rw [← or_assoc, or_or_or_comm, or_self]
          rw [if_neg hs, if_neg (fun hk => (hseen.mp hk).elim hb hs), ih,
              keepFirstFrom_congr hmem]

/-- Keeping the first of each key loses no key that has not been seen. -/
theorem mem_keys_keepFirstFrom (seen : List κ) (xs : List α) {k : κ} :
    k ∈ (keepFirstFrom key seen xs).map key ∨ k ∈ seen ↔ k ∈ xs.map key ∨ k ∈ seen := by
  induction xs generalizing seen with
  | nil => rfl
  | cons x xs ih =>
      unfold keepFirstFrom
      by_cases hx : key x ∈ seen
      · rw [if_pos hx, ih, List.map_cons, List.mem_cons, or_assoc]
        exact ⟨Or.inr, fun hk => hk.elim (fun hk => Or.inr (hk ▸ hx)) id⟩
      · have hcons := ih (key x :: seen)
        rw [List.mem_cons, or_left_comm] at hcons
        rw [if_neg hx, List.map_cons, List.map_cons, List.mem_cons, List.mem_cons, or_assoc,
            or_assoc, hcons, or_left_comm]

theorem mem_keys_keepFirst {xs : List α} {k : κ} :
    k ∈ (keepFirst key xs).map key ↔ k ∈ xs.map key := by
  have hfrom : k ∈ (keepFirst key xs).map key ∨ k ∈ [] ↔ k ∈ xs.map key ∨ k ∈ [] :=
    mem_keys_keepFirstFrom [] xs
  rwa [or_iff_left List.not_mem_nil, or_iff_left List.not_mem_nil] at hfrom

theorem keepFirst_absorbs : Absorbs (keepFirst key) where
  left xs ys := by
    have hmem : ∀ k, k ∈ (keepFirst key xs).map key ++ [] ↔ k ∈ xs.map key ++ [] := by
      intro k
      rw [List.append_nil, List.append_nil, mem_keys_keepFirst]
    unfold keepFirst at hmem ⊢
    rw [keepFirstFrom_append, keepFirstFrom_append, keepFirstFrom_keepFirstFrom,
        keepFirstFrom_congr hmem, List.nil_append]
  right xs ys := by
    unfold keepFirst
    rw [keepFirstFrom_append, keepFirstFrom_append, keepFirstFrom_keepFirstFrom, List.nil_append]

/-! ### The entries of a kind -/

theorem filter_absorbs (p : α → Bool) : Absorbs (List.filter p) where
  left xs ys := by
    rw [List.filter_append, List.filter_append, List.filter_filter]
    simp only [Bool.and_self]
  right xs ys := by
    rw [List.filter_append, List.filter_append, List.filter_filter]
    simp only [Bool.and_self]

/-- A list that is wanted or not as a whole. -/
theorem Absorbs.optional {drop : List α → List α} (h : Absorbs drop) (wanted : Bool) :
    Absorbs fun xs => if wanted then drop xs else [] := by
  cases wanted with
  | true => exact h
  | false => exact ⟨fun _ _ => rfl, fun _ _ => rfl⟩

/-! ## §4. Gathering a section. -/

/-- Gather a section: every entry is made distinct by itself, and is then stored
under its key. -/
def gather (key : α → κ) (distinct : α → α) (combine : α → α → α) (entries : List α) : List α :=
  upsertAll key combine (entries.map distinct) []

/-- What is combined is distinct, and nothing is gained by making it so twice. -/
structure Gathers (key : α → κ) (distinct : α → α) (combine : α → α → α) : Prop
    extends Associative key combine where
  distinct_combine : ∀ a b, distinct (combine a b) = combine a b
  distinct_distinct : ∀ a, distinct (distinct a) = distinct a

variable {distinct : α → α}

/-- Gathered entries have no repetitions. -/
theorem distinct_of_mem_gather (h : Gathers key distinct combine) (xs : List α) :
    ∀ a ∈ gather key distinct combine xs, distinct a = a := by
  show ∀ a ∈ upsertAll key combine (xs.map distinct) [], distinct a = a
  have hxs : ∀ x ∈ xs.map distinct, distinct x = x := by
    intro x hx
    obtain ⟨a, -, rfl⟩ := List.mem_map.mp hx
    exact h.distinct_distinct a
  exact forall_mem_upsertAll h.distinct_combine hxs (fun _ ha => absurd ha List.not_mem_nil)

theorem map_distinct_gather (h : Gathers key distinct combine) (xs : List α) :
    (gather key distinct combine xs).map distinct = gather key distinct combine xs :=
  (List.map_congr_left (distinct_of_mem_gather h xs)).trans (List.map_id _)

/-- **A gathered part takes the place of its entries.** -/
theorem gather_absorbs (h : Gathers key distinct combine) :
    Absorbs (gather key distinct combine) := by
  have happend : ∀ xs ys, gather key distinct combine (xs ++ ys)
      = upsertAll key combine (ys.map distinct) (gather key distinct combine xs) := by
    intro xs ys
    unfold gather
    rw [List.map_append, upsertAll_append]
  have hstored : ∀ xs acc, upsertAll key combine (gather key distinct combine xs) acc
      = upsertAll key combine (xs.map distinct) acc := fun xs =>
    upsertAll_upsertAll h.toAssociative (xs.map distinct) List.nodup_nil
  constructor
  · -- What was gathered is distinct and has every key once, so it is gathered to itself.
    intro xs ys
    have hself : gather key distinct combine (gather key distinct combine xs)
        = gather key distinct combine xs := by
      show upsertAll key combine ((gather key distinct combine xs).map distinct) [] = _
      rw [map_distinct_gather h, hstored]
      rfl
    rw [happend, happend, hself]
  · intro xs ys
    rw [happend, happend, map_distinct_gather h, hstored]

end AmdKit.Keyed
