/-
  AmdKit.Proofs.Repetition
  ────────────────────────────────
  **MERGING THE SAME COLLECTIONS AGAIN.**

  A second copy of the collections finds every key stored, and has nothing to
  add to what stands there:

      merge (xs ++ xs)  =  merge xs, but for the overrides and the warnings

  Of a dependency or a replacement the last occurrence stays, and the copy
  repeats all of them in their order; of a module the first stays, and the copy
  comes too late.  Overrides are kept as they come, so that each is there twice,
  and so is each warning about one without a bundle id.
-/
import AmdKit.Proofs.Persistence

namespace AmdKit.Keyed

/-! ## §1. Storing again what is stored. -/

variable {α κ : Type} [DecidableEq κ] {key : α → κ} {combine : α → α → α}

/-- Storing what is stored changes nothing, if the entry put together with itself is the
entry. -/
theorem upsert_of_mem {x : α} {stored : List α} (hn : (stored.map key).Nodup)
    (hx : x ∈ stored) (hself : combine x x = x) : upsert key combine x stored = stored := by
  induction stored with
  | nil => exact absurd hx List.not_mem_nil
  | cons y ys ih =>
      rw [List.map_cons, List.nodup_cons] at hn
      rcases List.mem_cons.mp hx with rfl | hx
      · rw [upsert, if_pos rfl, hself]
      · -- `x` stands further back, so `y` has another key.
        have hy : ¬ key y = key x := fun hy => hn.1 (hy ▸ List.mem_map_of_mem hx)
        rw [upsert, if_neg hy, ih hn.2 hx]

/-- Entries that are there already, and add nothing to themselves, change nothing. -/
theorem upsertAll_of_subset {xs stored : List α} (hn : (stored.map key).Nodup)
    (hxs : xs ⊆ stored) (hself : ∀ x ∈ stored, combine x x = x) :
    upsertAll key combine xs stored = stored := by
  induction xs with
  | nil => rfl
  | cons x xs ih =>
      have hx : x ∈ stored := hxs List.mem_cons_self
      rw [upsertAll_cons, upsert_of_mem hn hx (hself x hx)]
      exact ih fun y hy => hxs (List.mem_cons_of_mem x hy)

/-- **A second copy adds nothing to a gathered section.** -/
theorem gather_append_self {distinct : α → α} (h : Gathers key distinct combine)
    (hself : ∀ a, distinct a = a → combine a a = a) (xs : List α) :
    gather key distinct combine (xs ++ xs) = gather key distinct combine xs := by
  have hmap := map_distinct_gather h xs
  have hnodup : ((gather key distinct combine xs).map key).Nodup :=
    nodup_keys_upsertAll h.toAssociative List.nodup_nil
  have hadds : ∀ a ∈ gather key distinct combine xs, combine a a = a := by
    intro a ha
    exact hself a (distinct_of_mem_gather h xs a ha)
  -- Both copies are gathered first: the one is then stored as it is, and the other
  -- one into itself.
  rw [← (gather_absorbs h).both]
  generalize gather key distinct combine xs = stored at hmap hnodup hadds ⊢
  have hfirst : upsertAll key combine stored [] = stored := upsertAll_of_nodup hnodup
  show upsertAll key combine ((stored ++ stored).map distinct) [] = stored
  rw [List.map_append, hmap, upsertAll_append, hfirst]
  exact upsertAll_of_subset hnodup (List.Subset.refl stored) hadds

/-! ## §2. Dropping repeated keys from two copies. -/

/-- Of two copies the last of each key stands in the second. -/
theorem keepLast_append_self (xs : List α) : keepLast key (xs ++ xs) = keepLast key xs := by
  -- Every entry of the first copy is repeated by the second.
  have hfirst : (keepLast key xs).filter (fun x => decide (key x ∉ xs.map key)) = [] := by
    rw [List.filter_eq_nil_iff]
    intro x hx
    have hmem : key x ∈ xs.map key := mem_keys_keepLast.mp (List.mem_map_of_mem hx)
    simpa using hmem
  rw [keepLast_append, hfirst, List.nil_append]

/-- Nothing is kept whose key has been seen. -/
theorem keepFirstFrom_eq_nil {seen : List κ} {xs : List α} (h : ∀ x ∈ xs, key x ∈ seen) :
    keepFirstFrom key seen xs = [] := by
  induction xs with
  | nil => rfl
  | cons x xs ih =>
      rw [List.forall_mem_cons] at h
      rw [keepFirstFrom, if_pos h.1, ih h.2]

/-- Of two copies the first of each key stands in the first. -/
theorem keepFirst_append_self (xs : List α) : keepFirst key (xs ++ xs) = keepFirst key xs := by
  -- Every entry of the second copy has been seen in the first.
  have hsecond : keepFirstFrom key (xs.map key ++ []) xs = [] := by
    apply keepFirstFrom_eq_nil
    intro x hx
    rw [List.append_nil]
    exact List.mem_map_of_mem hx
  unfold keepFirst
  rw [keepFirstFrom_append, hsecond, List.append_nil]

end AmdKit.Keyed

namespace AmdKit.Loader

open Keyed

/-! ## §3. Sections. -/

/-- Merging a section with a copy of itself changes nothing. -/
theorem mergePaths_append_self (ps : List PathEntry) : mergePaths (ps ++ ps) = mergePaths ps := by
  rw [mergePaths_eq_gather, mergePaths_eq_gather]
  exact gather_append_self pathEntry_gathers (fun _ _ => rfl) ps

theorem mergeShims_append_self (ss : List Shim) : mergeShims (ss ++ ss) = mergeShims ss := by
  apply gather_append_self shim_gathers
  intro s hs
  show Shim.distinct ⟨s.forModule, s.exported, s.dependencies ++ s.dependencies⟩ = s
  unfold Shim.distinct
  rw [keepLast_append_self]
  exact hs

theorem mergeRemaps_append_self (rs : List Remap) : mergeRemaps (rs ++ rs) = mergeRemaps rs := by
  apply gather_append_self remap_gathers
  intro r hr
  show Remap.distinct ⟨r.forModule, r.replacements ++ r.replacements⟩ = r
  unfold Remap.distinct
  rw [keepLast_append_self]
  exact hr

theorem mergeBundles_append_self (bs : List Bundle) : mergeBundles (bs ++ bs) = mergeBundles bs := by
  rw [mergeBundles_eq_gather, mergeBundles_eq_gather]
  apply gather_append_self bundle_gathers
  intro b hb
  show Bundle.distinct ⟨b.bundleId, b.modules ++ b.modules⟩ = b
  unfold Bundle.distinct
  rw [keepFirst_append_self]
  exact hb

/-! ## §4. Collections. -/

/-- Merging collections twice changes nothing but the overrides, which are there twice. -/
theorem collection_merge_append_self (options : MergeOptions) (xs : List Collection) :
    (merge options (xs ++ xs)).collection
      = { (merge options xs).collection with
          overrides := (merge options xs).collection.overrides
            ++ (merge options xs).collection.overrides } := by
  rw [merge_eq_mergeSectionwise, merge_eq_mergeSectionwise]
  simp only [mergeSectionwise, List.flatMap_append, Collection.mk.injEq]
  refine ⟨trivial, mergePaths_append_self _, mergePaths_append_self _, mergeShims_append_self _,
    mergeRemaps_append_self _, ?bundles, ?overrides⟩
  case bundles => rw [mergeBundles_append_self]
  case overrides =>
    by_cases ho : options.loadOverrides = true
    · rw [if_pos ho, if_pos ho, List.filter_append]
    · rw [if_neg ho, if_neg ho]
      rfl

/-- What would be doubled is empty only if there are no overrides to be merged. -/
theorem overrides_warnings_eq_nil_iff (options : MergeOptions) (c : Collection) :
    (merge options [c]).collection.overrides = [] ∧ (merge options [c]).warnings = []
      ↔ c.overrides = [] ∨ options.loadOverrides = false := by
  rw [merge_eq_mergeSectionwise]
  cases ho : options.loadOverrides with
  | false => simp [mergeSectionwise, ho]
  | true =>
      have hkept : (mergeSectionwise options [c]).collection.overrides
          = c.overrides.filter Override.isNamed := by
        simp [mergeSectionwise, ho]
      have hdropped : (mergeSectionwise options [c]).warnings = blankOverrides c := by
        simp [mergeSectionwise, ho]
      rw [hkept, hdropped]
      unfold blankOverrides
      rw [List.map_eq_nil_iff, List.filter_eq_nil_iff, List.filter_eq_nil_iff]
      constructor
      · -- An override would be kept if it is named, and warned about if it is not.
        rintro ⟨hnamed, hblank⟩
        refine Or.inl (List.eq_nil_iff_forall_not_mem.mpr fun o hmem => ?_)
        exact hblank o hmem (by simpa using hnamed o hmem)
      · rintro (hnone | hfalse)
        · rw [hnone]
          exact ⟨fun _ ho => absurd ho List.not_mem_nil, fun _ ho => absurd ho List.not_mem_nil⟩
        · exact absurd hfalse (by decide)

/-- **Merging is idempotent.**  When the same collections follow once more, every
section but the overrides stays as it is, in content and in order; the overrides
and the warnings come twice in a row.  So a collection merged with itself is the
collection merged alone exactly if it has no overrides or none are loaded. -/
theorem merge_append_self (options : MergeOptions) :
    (∀ xs : List Collection,
      let once := merge options xs
      merge options (xs ++ xs)
        = ⟨{ once.collection with
              overrides := once.collection.overrides ++ once.collection.overrides },
            once.warnings ++ once.warnings⟩)
    ∧ ∀ c : Collection, merge options [c, c] = merge options [c]
      ↔ c.overrides = [] ∨ options.loadOverrides = false := by
  have htwice : ∀ xs : List Collection, merge options (xs ++ xs)
      = ⟨{ (merge options xs).collection with
            overrides := (merge options xs).collection.overrides
              ++ (merge options xs).collection.overrides },
          (merge options xs).warnings ++ (merge options xs).warnings⟩ := by
    intro xs
    exact congr (congrArg Outcome.mk (collection_merge_append_self options xs))
      (warnings_merge_append options xs xs)
  refine ⟨htwice, fun c => ?_⟩
  rw [← overrides_warnings_eq_nil_iff]
  show merge options ([c] ++ [c]) = _ ↔ _
  rw [htwice]
  constructor
  · -- What has been doubled is the same as before only if it is empty.
    intro h
    have hoverrides := congrArg (fun o => o.collection.overrides) h
    have hwarnings := congrArg Outcome.warnings h
    exact ⟨List.append_right_eq_self.mp hoverrides, List.append_right_eq_self.mp hwarnings⟩
  · rintro ⟨hoverrides, hwarnings⟩
    rw [hoverrides, hwarnings]
    exact congr (congrArg Outcome.mk (congrArg _ hoverrides.symm)) hwarnings.symm

end AmdKit.Loader
