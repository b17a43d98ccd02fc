/-
  AmdKit.Proofs.KeyedLookups
  ────────────────────────────────
  **LOOKING UP WHAT WAS STORED.**

  Under a key stands what was there before, combined with all entries that were
  stored under it, from the first to the last, and with nothing else:

      find? k (upsertAll xs acc)  =  joined (find? k acc, those of xs with the key k)

  Where an entry takes the place of the one before, this is the last one stored.
  The keys of a store stand as they were first seen: storing an entry adds its key
  behind the others, if it is new, and leaves the keys as they are, if it is not.
-/
import Mathlib.Data.List.Induction
import AmdKit.Proofs.KeyedLists

namespace AmdKit.Keyed

variable {α κ : Type} [DecidableEq κ] {key : α → κ} {combine : α → α → α}

/-! ## §1. Look-ups. -/

theorem find?_cons (k : κ) (x : α) (xs : List α) :
    find? key k (x :: xs) = if key x = k then some x else find? key k xs := by
  unfold find?
  by_cases hk : key x = k
  · rw [List.find?_cons_of_pos (by simpa using hk), if_pos hk]
  · rw [List.find?_cons_of_neg (by simpa using hk), if_neg hk]

/-- A look-up in a list whose entries were all changed, but for their keys. -/
theorem find?_map {β : Type} {keyOf : β → κ} {f : α → β} (hkey : ∀ a, keyOf (f a) = key a)
    (k : κ) (xs : List α) : find? keyOf k (xs.map f) = (find? key k xs).map f := by
  induction xs with
  | nil => rfl
  | cons x xs ih =>
      rw [List.map_cons, find?_cons, find?_cons, hkey, ih]
      by_cases hk : key x = k
      · rw [if_pos hk, if_pos hk]
        rfl
      · rw [if_neg hk, if_neg hk]

/-- Without repeated keys the last entry with a key is the first one. -/
theorem find?_reverse {xs : List α} (hn : (xs.map key).Nodup) (k : κ) :
    find? key k xs.reverse = find? key k xs := by
  induction xs with
  | nil => rfl
  | cons x xs ih =>
      rw [List.map_cons, List.nodup_cons] at hn
      unfold find? at ih ⊢
      rw [List.reverse_cons, List.find?_append, ih hn.2, List.find?_singleton]
      by_cases hk : key x = k
      · -- No entry behind `x` has its key.
        have hnone : xs.find? (fun y => decide (key y = k)) = none := by
          rw [List.find?_eq_none]
          intro y hy
          have hne : key y ≠ k := fun h => hn.1 (hk.trans h.symm ▸ List.mem_map_of_mem hy)
          simpa using hne
        simp [hk, hnone]
      · simp [hk]

/-! ## §2. What stands under a key. -/

/-- All entries of a list combined to one, from the first to the last. -/
def joined (combine : α → α → α) : List α → Option α
  | [] => none
  | x :: xs => some (xs.foldl combine x)

theorem joined_concat (xs : List α) (x : α) :
    joined combine (xs ++ [x])
      = some (((joined combine xs).map fun y => combine y x).getD x) := by
  cases xs with
  | nil => rfl
  | cons y ys =>
      show some ((ys ++ [x]).foldl combine y) = _
      rw [List.foldl_append]
      rfl

/-- Entries that take each other's place are joined to the last of them. -/
theorem joined_replace (xs : List α) : joined (fun _ new => new) xs = xs.getLast? := by
  induction xs using List.reverseRecOn with
  | nil => rfl
  | append_singleton xs x _ =>
      rw [joined_concat, List.getLast?_concat]
      cases joined (fun _ new : α => new) xs with
      | none => rfl
      | some y => rfl

/-- Lists that are joined as entries are combined stand in a row. -/
theorem items_foldl {β : Type} {items : α → List β}
    (h : ∀ a b, items (combine a b) = items a ++ items b) (x : α) (xs : List α) :
    items (xs.foldl combine x) = items x ++ xs.flatMap items := by
  induction xs generalizing x with
  | nil => exact (List.append_nil _).symm
  | cons y ys ih => rw [List.foldl_cons, ih, h, List.flatMap_cons, List.append_assoc]

/-- Entries with one key, whose lists are joined as they are combined. -/
theorem exists_joined {α κ β : Type} {key : α → κ} {combine : α → α → α} {items : α → List β}
    (hkey : ∀ a b, key (combine a b) = key a)
    (hitems : ∀ a b, items (combine a b) = items a ++ items b) {k : κ} {xs : List α}
    (hxs : ∀ x ∈ xs, key x = k) (hne : xs ≠ []) :
    ∃ y, joined combine xs = some y ∧ key y = k ∧ items y = xs.flatMap items := by
  cases xs with
  | nil => exact absurd rfl hne
  | cons x xs =>
      have hfirst : ∀ (xs : List α) (x : α), key (xs.foldl combine x) = key x := by
        intro xs
        induction xs with
        | nil => exact fun _ => rfl
        | cons y ys ih => exact fun x => (ih (combine x y)).trans (hkey x y)
      exact ⟨xs.foldl combine x, rfl, (hfirst xs x).trans (hxs x List.mem_cons_self),
        items_foldl hitems x xs⟩

/-- Storing an entry changes what stands under its own key, and under no other. -/
theorem find?_upsert (h : Associative key combine) (k : κ) (x : α) (acc : List α) :
    find? key k (upsert key combine x acc)
      = if key x = k then some (((find? key k acc).map fun y => combine y x).getD x)
        else find? key k acc := by
  induction acc with
  | nil => exact find?_cons k x []
  | cons y ys ih =>
      by_cases hy : key y = key x
      · have hkey : key (combine y x) = key x := (h.key_combine y x hy.symm).trans hy
        rw [upsert, if_pos hy, find?_cons, find?_cons, hkey, hy]
        by_cases hk : key x = k
        · rw [if_pos hk, if_pos hk, if_pos hk]
          rfl
        · rw [if_neg hk, if_neg hk, if_neg hk]
      · rw [upsert, if_neg hy, find?_cons, find?_cons, ih]
        by_cases hk : key y = k
        · -- `y` answers the look-up, and the key of `x` is another one.
          have hx : ¬ key x = k := fun hx => hy (hk.trans hx.symm)
          rw [if_pos hk, if_pos hk, if_neg hx]
        · rw [if_neg hk, if_neg hk]

/-- **Under a key stands what was there, combined with all entries stored under it.** -/
theorem find?_upsertAll_into (h : Associative key combine) (k : κ) (xs acc : List α) :
    find? key k (upsertAll key combine xs acc)
      = joined combine ((find? key k acc).toList ++ xs.filter fun x => key x = k) := by
  induction xs using List.reverseRecOn with
  | nil =>
      rw [List.filter_nil, List.append_nil]
      show find? key k acc = _
      cases find? key k acc with
      | none => rfl
      | some y => rfl
  | append_singleton xs x ih =>
      rw [upsertAll_append]
      show find? key k (upsert key combine x (upsertAll key combine xs acc)) = _
      rw [find?_upsert h, ih, List.filter_append]
      by_cases hk : key x = k
      · rw [if_pos hk, List.filter_cons_of_pos (by simpa using hk), List.filter_nil,
            ← List.append_assoc, joined_concat]
      · rw [if_neg hk, List.filter_cons_of_neg (by simpa using hk), List.filter_nil,
            List.append_nil]

theorem find?_upsertAll (h : Associative key combine) (k : κ) (xs : List α) :
    find? key k (upsertAll key combine xs [])
      = joined combine (xs.filter fun x => key x = k) :=
  find?_upsertAll_into h k xs []

/-- **The last entry wins**, and what was there before stays where there is none. -/
theorem find?_replaceAll (k : κ) (xs acc : List α) :
    find? key k (upsertAll key (fun _ new => new) xs acc)
      = ((xs.filter fun x => key x = k).getLast?).or (find? key k acc) := by
  rw [find?_upsertAll_into replace_associative, joined_replace, List.getLast?_append]
  congr 1
  cases find? key k acc with
  | none => rfl
  | some y => rfl

/-! ## §3. Keys. -/

theorem eraseDups_concat (ks : List κ) (k : κ) :
    (ks ++ [k]).eraseDups = ks.eraseDups ++ if k ∈ ks then [] else [k] := by
  rw [List.eraseDups_append]
  congr 1
  unfold List.removeAll
  by_cases hk : k ∈ ks
  · rw [if_pos hk, List.filter_cons_of_neg (by simpa using hk)]
    rfl
  · rw [if_neg hk, List.filter_cons_of_pos (by simpa using hk)]
    rfl

theorem eraseDups_of_nodup {ks : List κ} (hn : ks.Nodup) : ks.eraseDups = ks := by
  induction ks using List.reverseRecOn with
  | nil => rfl
  | append_singleton ks k ih =>
      rw [List.nodup_append] at hn
      have hk : k ∉ ks := fun hk => hn.2.2 k hk k (List.mem_singleton_self k) rfl
      rw [eraseDups_concat, ih hn.1, if_neg hk]

/-- A new key goes behind the others. -/
theorem keys_upsert (h : Associative key combine) (x : α) (acc : List α) :
    (upsert key combine x acc).map key
      = acc.map key ++ if key x ∈ acc.map key then [] else [key x] := by
  by_cases hx : key x ∈ acc.map key
  · rw [if_pos hx, List.append_nil]
    induction acc with
    | nil => exact absurd hx List.not_mem_nil
    | cons y ys ih =>
        unfold upsert
        by_cases hy : key y = key x
        · rw [if_pos hy, List.map_cons, h.key_combine y x hy.symm, List.map_cons]
        · have hys : key x ∈ ys.map key :=
            (List.mem_cons.mp hx).resolve_left fun hk => hy hk.symm
          rw [if_neg hy, List.map_cons, List.map_cons, ih hys]
  · rw [if_neg hx, upsert_of_notMem hx, List.map_append, List.map_singleton]

/-- **New keys go behind those that are there, as they are first seen.** -/
theorem keys_upsertAll_into (h : Associative key combine) (xs acc : List α) :
    (upsertAll key combine xs acc).map key
      = acc.map key ++ ((xs.map key).filter fun k => k ∉ acc.map key).eraseDups := by
  induction xs using List.reverseRecOn with
  | nil => exact (List.append_nil _).symm
  | append_singleton xs x ih =>
      rw [upsertAll_append]
      show (upsert key combine x (upsertAll key combine xs acc)).map key = _
      rw [keys_upsert h, ih, List.map_append, List.map_singleton, List.filter_append,
          List.append_assoc]
      congr 1
      by_cases hx : key x ∈ acc.map key
      · rw [if_pos (List.mem_append_left _ hx), List.filter_cons_of_neg (by simpa using hx)]
        simp
      · rw [List.filter_cons_of_pos (by simpa using hx), List.filter_nil, eraseDups_concat]
        congr 2
        simp only [List.mem_append, List.mem_eraseDups, hx, false_or]

/-- **Stored entries list their keys as they are first seen.** -/
theorem keys_upsertAll (h : Associative key combine) (xs : List α) :
    (upsertAll key combine xs []).map key = (xs.map key).eraseDups := by
  have hall : (xs.map key).filter (fun k => decide (k ∉ ([] : List α).map key)) = xs.map key := by
    simp
  rw [keys_upsertAll_into h, hall]
  rfl

end AmdKit.Keyed
