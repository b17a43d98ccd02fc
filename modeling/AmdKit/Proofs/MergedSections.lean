/-
  AmdKit.Proofs.MergedSections
  ────────────────────────────────
  **WHAT A MERGED COLLECTION LOOKS LIKE.**

  Collections may repeat anything: a key in two of them or within one, and an
  id within one entry.  The collection that they are merged to repeats
  nothing, and every section lists its keys as they are first seen:

      keys of a merged section  =  (keys of all entries).eraseDups

  An id repeats within no entry, because every entry is made distinct before it
  is stored and whenever another one is joined to it.
-/
import AmdKit.Proofs.Persistence

namespace AmdKit.Keyed

/-! ## §1. Keys of stored entries. -/

variable {α κ : Type} [DecidableEq κ] {key : α → κ} {combine : α → α → α}

/-- Gathered entries have their keys in the order of first occurrence, each once. -/
theorem keys_gather {distinct : α → α} (h : Gathers key distinct combine)
    (hkey : ∀ x, key (distinct x) = key x) (xs : List α) :
    (gather key distinct combine xs).map key = (xs.map key).eraseDups := by
  have hkeys : (xs.map distinct).map key = xs.map key := by
    rw [List.map_map]
    exact List.map_congr_left fun x _ => hkey x
  unfold gather
  rw [keys_upsertAll h.toAssociative, hkeys]

/-- Where the first of each key is kept, no key is left twice. -/
theorem nodup_keys_keepFirst (xs : List α) : ((keepFirst key xs).map key).Nodup := by
  rw [← keys_collapse]
  exact nodup_keys_collapse xs

end AmdKit.Keyed

namespace AmdKit.Loader

open Keyed

/-! ## §2. The sections of a merged collection. -/

/-- Merged paths have the keys of all entries, in the order of first occurrence. -/
theorem keys_mergePaths (entries : List PathEntry) :
    (mergePaths entries).map PathEntry.key = (entries.map PathEntry.key).eraseDups := by
  rw [mergePaths_eq_gather]
  exact keys_gather pathEntry_gathers (fun _ => rfl) entries

/-- A merged shim has each dependency once. -/
theorem nodup_dependencies_mergeShims {entries : List Shim} {s : Shim}
    (hs : s ∈ mergeShims entries) : s.dependencies.Nodup := by
  have hdistinct : s.distinct = s := distinct_of_mem_gather shim_gathers entries s hs
  have hnodup : ((keepLast id s.dependencies).map id).Nodup := nodup_keys_keepLast s.dependencies
  rw [List.map_id] at hnodup
  rw [← hdistinct]
  exact hnodup

/-- A merged bundle has each module once. -/
theorem nodup_modules_mergeBundles {entries : List Bundle} {b : Bundle}
    (hb : b ∈ mergeBundles entries) : b.modules.Nodup := by
  rw [mergeBundles_eq_gather] at hb
  have hdistinct : b.distinct = b := distinct_of_mem_gather bundle_gathers entries b hb
  have hnodup : ((keepFirst id b.modules).map id).Nodup := nodup_keys_keepFirst b.modules
  rw [List.map_id] at hnodup
  rw [← hdistinct]
  exact hnodup

/-! ## §3. Merged collections. -/

/-- What holds of every collection that was merged: it is settled, it has no
source, and

  * the keys of a section stand as they are first seen in the collections;
  * no dependency of a shim and no module of a bundle repeats;
  * sections that are not asked for are empty. -/
structure Collection.MergedFrom (cs : List Collection) (options : MergeOptions)
    (c : Collection) : Prop extends c.Settled where
  source : c.source = none
  pathKeys : c.paths.map PathEntry.key
    = ((cs.flatMap Collection.paths).map PathEntry.key).eraseDups
  bundlePathKeys : c.bundlePaths.map PathEntry.key
    = ((cs.flatMap Collection.bundlePaths).map PathEntry.key).eraseDups
  shimKeys : c.shims.map Shim.forModule
    = ((cs.flatMap Collection.shims).map Shim.forModule).eraseDups
  remapKeys : c.remaps.map Remap.forModule
    = ((cs.flatMap Collection.remaps).map Remap.forModule).eraseDups
  bundleKeys : options.processBundles = true → c.bundles.map Bundle.bundleId
    = ((cs.flatMap Collection.bundles).map Bundle.bundleId).eraseDups
  dependencies : ∀ s ∈ c.shims, s.dependencies.Nodup
  modules : ∀ b ∈ c.bundles, b.modules.Nodup
  noBundles : options.processBundles = false → c.bundles = []
  noOverrides : options.loadOverrides = false → c.overrides = []

/-- **Merged collections.**  Whatever the collections repeat, the one that they
are merged to has every key of a section once, in the order in which the keys
are first seen.  No shim repeats a dependency, no bundle a module, and no
remap the id that it replaces.  Every override has a bundle id.  The source is
not kept, and bundles and overrides are there only if they are asked for. -/
theorem mergedFrom_merge (cs : List Collection) (options : MergeOptions) :
    (merge options cs).collection.MergedFrom cs options := by
  have hsettled := settled_merge options cs
  rw [merge_eq_mergeSectionwise] at hsettled ⊢
  -- The options say which of the last two sections are there at all.
  refine { toSettled := hsettled
           source := rfl
           pathKeys := keys_mergePaths (cs.flatMap Collection.paths)
           bundlePathKeys := keys_mergePaths (cs.flatMap Collection.bundlePaths)
           shimKeys := keys_gather shim_gathers (fun _ => rfl) (cs.flatMap Collection.shims)
           remapKeys := keys_gather remap_gathers (fun _ => rfl) (cs.flatMap Collection.remaps)
           dependencies := fun s hs => nodup_dependencies_mergeShims hs
           bundleKeys := ?bundleKeys
           modules := ?modules
           noBundles := ?noBundles
           noOverrides := ?noOverrides }
  case bundleKeys =>
    intro hb
    show (if options.processBundles then _ else _ : List Bundle).map Bundle.bundleId = _
    rw [if_pos hb, mergeBundles_eq_gather]
    exact keys_gather bundle_gathers (fun _ => rfl) (cs.flatMap Collection.bundles)
  case modules =>
    intro b hb
    change b ∈ (if options.processBundles then _ else _) at hb
    split at hb
    · exact nodup_modules_mergeBundles hb
    · exact absurd hb List.not_mem_nil
  case noBundles =>
    intro hb
    show (if options.processBundles then _ else _) = _
    rw [hb]
    rfl
  case noOverrides =>
    intro ho
    show (if options.loadOverrides then _ else _) = _
    rw [ho]
    rfl

end AmdKit.Loader
