/-
  AmdKit.Proofs.Merging
  ────────────────────────────────
  **MERGING IN STAGES.**

  Collections can be merged all at once, or some of them first and the results
  with the rest.  As long as the order stays, the collection is the same:

      merge [merge xs, merge ys]  =  merge (xs ++ ys)

  The loop over the collections adds each of them to all sections at once.  What it
  comes to can be said section by section, of the entries of all collections in a row:

      merge options cs  =  mergeSectionwise options cs

  and every section is merged by a rule that absorbs what it has merged already:

      paths, shims, remaps, bundles  — gathered under their keys
      overrides                      — filtered

  Bundles are gathered first and made distinct at the end; that is the same as
  making them distinct at every step.
-/
import AmdKit.Loader.Merge
import AmdKit.Proofs.KeyedLists
import Mathlib.Data.List.Induction

namespace AmdKit.Loader

open Keyed

/-! ## §1. Section by section. -/

/-- Merge path entries. -/
def mergePaths (entries : List PathEntry) : List PathEntry :=
  upsertAll PathEntry.key (fun _ new => new) entries []

/-- Merge shims. -/
def mergeShims (entries : List Shim) : List Shim :=
  upsertAll Shim.forModule Shim.combine (entries.map Shim.distinct) []

/-- Merge redirected dependencies. -/
def mergeRemaps (entries : List Remap) : List Remap :=
  upsertAll Remap.forModule Remap.combine (entries.map Remap.distinct) []

/-- Merge bundles: modules are appended throughout, and repeated ones are
dropped once at the end. -/
def mergeBundles (entries : List Bundle) : List Bundle :=
  (upsertAll Bundle.bundleId Bundle.append entries []).map Bundle.distinct

/-- The warnings about the overrides of one collection that name no bundle. -/
def blankOverrides (c : Collection) : List Warning :=
  (c.overrides.filter fun o => !o.isNamed).map fun _ =>
    ⟨c.source.getD "<unnamed>", [.member "overrides"], .blankBundleId⟩

/-- Merge every section of the collections by itself. -/
def mergeSectionwise (options : MergeOptions) (cs : List Collection) : Outcome where
  collection := {
    source := none
    paths := mergePaths (cs.flatMap Collection.paths)
    bundlePaths := mergePaths (cs.flatMap Collection.bundlePaths)
    shims := mergeShims (cs.flatMap Collection.shims)
    remaps := mergeRemaps (cs.flatMap Collection.remaps)
    bundles := if options.processBundles then mergeBundles (cs.flatMap Collection.bundles) else []
    overrides :=
      if options.loadOverrides then (cs.flatMap Collection.overrides).filter Override.isNamed
      else [] }
  warnings := if options.loadOverrides then cs.flatMap blankOverrides else []

/-- The overrides of a collection are sorted into those that are kept and those that
are warned of. -/
theorem foldl_mergeOverride (source : String) (os : List Override) (merged : Outcome) :
    os.foldl (mergeOverride source) merged
      = ⟨{ merged.collection with
            overrides := merged.collection.overrides ++ os.filter Override.isNamed },
          merged.warnings ++ (os.filter fun o => !o.isNamed).map fun _ =>
            ⟨source, [.member "overrides"], .blankBundleId⟩⟩ := by
  induction os generalizing merged with
  | nil => simp
  | cons o os ih =>
      rw [List.foldl_cons, ih]
      unfold mergeOverride
      cases hnamed : o.isNamed with
      | true => simp [hnamed]
      | false => simp [hnamed]

/-- What one step adds to the sections, the overrides and the warnings. -/
theorem mergeNext_eq (options : MergeOptions) (merged : Outcome) (c : Collection) :
    mergeNext options merged c
      = ⟨{ mergeSections options merged.collection c with
            overrides := merged.collection.overrides
              ++ if options.loadOverrides then c.overrides.filter Override.isNamed else [] },
          merged.warnings ++ if options.loadOverrides then blankOverrides c else []⟩ := by
  unfold mergeNext
  cases options.loadOverrides with
  | true =>
      rw [if_pos rfl, if_pos rfl, if_pos rfl, foldl_mergeOverride]
      rfl
  | false =>
      rw [if_neg Bool.false_ne_true, if_neg Bool.false_ne_true, if_neg Bool.false_ne_true,
          List.append_nil, List.append_nil]
      rfl

/-- What has been merged before the bundles are made distinct. -/
def gathered (options : MergeOptions) (cs : List Collection) : Outcome :=
  ⟨{ (mergeSectionwise options cs).collection with
      bundles := if options.processBundles then
          upsertAll Bundle.bundleId Bundle.append (cs.flatMap Collection.bundles) []
        else [] },
    (mergeSectionwise options cs).warnings⟩

/-- **A step adds one collection to every section.** -/
theorem mergeNext_gathered (options : MergeOptions) (cs : List Collection) (c : Collection) :
    mergeNext options (gathered options cs) c = gathered options (cs ++ [c]) := by
  rw [mergeNext_eq]
  unfold gathered
  simp only [Outcome.mk.injEq, mergeSections, mergeSectionwise, Collection.mk.injEq,
    List.flatMap_append, List.flatMap_singleton, mergePaths, mergeShims, mergeRemaps,
    List.map_append, upsertAll_append, true_and]
  refine ⟨⟨?bundles, ?overrides⟩, ?warnings⟩
  case bundles => cases options.processBundles <;> rfl
  case overrides => cases options.loadOverrides <;> simp
  case warnings => cases options.loadOverrides <;> simp

/-- The loop gathers the sections. -/
theorem foldl_mergeNext_eq_gathered (options : MergeOptions) (cs : List Collection) :
    cs.foldl (mergeNext options) ⟨{ source := none }, []⟩ = gathered options cs := by
  induction cs using List.reverseRecOn with
  | nil =>
      unfold gathered mergeSectionwise
      cases options.processBundles <;> cases options.loadOverrides <;> rfl
  | append_singleton cs c ih =>
      rw [List.foldl_append, ih]
      exact mergeNext_gathered options cs c

/-- **Merging collection by collection is merging section by section.** -/
theorem merge_eq_mergeSectionwise (options : MergeOptions) (cs : List Collection) :
    merge options cs = mergeSectionwise options cs := by
  unfold merge mergeFinish
  rw [foldl_mergeNext_eq_gathered]
  unfold gathered mergeSectionwise mergeBundles
  cases options.processBundles <;> rfl

/-! ## §2. The gathered sections. -/

/-- Each section is gathered: an entry is stored without repetitions, and later ones are
put together with it. -/
theorem pathEntry_gathers : Gathers PathEntry.key id (fun _ new => new) where
  key_combine _ _ hkey := hkey
  assoc _ _ _ := rfl
  distinct_combine _ _ := rfl
  distinct_distinct _ := rfl

theorem mergePaths_eq_gather (entries : List PathEntry) :
    mergePaths entries = gather PathEntry.key id (fun _ new => new) entries := by
  unfold mergePaths gather
  rw [List.map_id]

theorem shim_gathers : Gathers Shim.forModule Shim.distinct Shim.combine where
  key_combine _ _ _ := rfl
  assoc a b c := by
    unfold Shim.combine Shim.distinct
    rw [keepLast_absorbs.assoc]
  distinct_combine a b := by
    unfold Shim.combine Shim.distinct
    rw [keepLast_absorbs.idem]
  distinct_distinct a := by
    unfold Shim.distinct
    rw [keepLast_absorbs.idem]

theorem remap_gathers : Gathers Remap.forModule Remap.distinct Remap.combine where
  key_combine _ _ _ := rfl
  assoc a b c := by
    unfold Remap.combine Remap.distinct
    rw [keepLast_absorbs.assoc]
  distinct_combine a b := by
    unfold Remap.combine Remap.distinct
    rw [keepLast_absorbs.idem]
  distinct_distinct a := by
    unfold Remap.distinct
    rw [keepLast_absorbs.idem]

/-- A later entry for the same bundle, with repeated modules dropped at once. -/
def Bundle.combine (old new : Bundle) : Bundle :=
  Bundle.distinct (Bundle.append old new)

theorem bundle_gathers : Gathers Bundle.bundleId Bundle.distinct Bundle.combine where
  key_combine _ _ _ := rfl
  assoc a b c := by
    unfold Bundle.combine Bundle.append Bundle.distinct
    rw [keepFirst_absorbs.assoc]
  distinct_combine a b := by
    unfold Bundle.combine Bundle.distinct
    rw [keepFirst_absorbs.idem]
  distinct_distinct a := by
    unfold Bundle.distinct
    rw [keepFirst_absorbs.idem]

/-- Repetitions may be dropped before modules are put together, or behind that. -/
theorem Bundle.distinct_append (a b : Bundle) :
    (a.append b).distinct = a.distinct.combine b.distinct := by
  unfold Bundle.combine Bundle.append Bundle.distinct
  rw [keepFirst_absorbs.both]

/-- So they may be dropped from all bundles at once. -/
theorem map_distinct_upsertAll (entries stored : List Bundle) :
    (upsertAll Bundle.bundleId Bundle.append entries stored).map Bundle.distinct
      = upsertAll Bundle.bundleId Bundle.combine (entries.map Bundle.distinct)
          (stored.map Bundle.distinct) := by
  have hkey : ∀ b : Bundle, b.distinct.bundleId = b.bundleId := fun _ => rfl
  exact map_upsertAll hkey Bundle.distinct_append entries stored

/-- **Dropping repeated modules once at the end is dropping them at every
step.** -/
theorem mergeBundles_eq_gather (entries : List Bundle) :
    mergeBundles entries = gather Bundle.bundleId Bundle.distinct Bundle.combine entries :=
  map_distinct_upsertAll entries []

/-! ## §3. Every section absorbs what it has merged. -/

/-- A section that has been merged may be merged again in place of its entries. -/
theorem mergePaths_absorbs : Absorbs mergePaths := by
  rw [funext mergePaths_eq_gather]
  exact gather_absorbs pathEntry_gathers

theorem mergeShims_absorbs : Absorbs mergeShims :=
  gather_absorbs shim_gathers

theorem mergeRemaps_absorbs : Absorbs mergeRemaps :=
  gather_absorbs remap_gathers

theorem mergeBundles_absorbs : Absorbs mergeBundles := by
  rw [funext mergeBundles_eq_gather]
  exact gather_absorbs bundle_gathers

/-- The entries of a merged collection stand for those of the collections that it comes
from. -/
theorem flatMap_between {α : Type} {rule : List α → List α} (h : Absorbs rule)
    (entries : Collection → List α) {merged : Collection} {xs : List Collection}
    (hmerged : entries merged = rule (xs.flatMap entries)) (before after : List Collection) :
    rule ((before ++ merged :: after).flatMap entries)
      = rule ((before ++ xs ++ after).flatMap entries) := by
  rw [List.flatMap_append, List.flatMap_cons, hmerged, ← List.append_assoc, h.between,
      List.flatMap_append, List.flatMap_append]

/-! ## §4. Collections. -/

/-- A merged collection takes the place of the collections it was merged from. -/
theorem collection_merge_between (options : MergeOptions) (before xs after : List Collection) :
    (merge options (before ++ (merge options xs).collection :: after)).collection
      = (merge options (before ++ xs ++ after)).collection := by
  -- The inner merge gets a name, so that only the outer ones are opened.
  obtain ⟨merged, hmerged⟩ : ∃ merged, merged = (merge options xs).collection := ⟨_, rfl⟩
  rw [← hmerged, merge_eq_mergeSectionwise, merge_eq_mergeSectionwise]
  rw [merge_eq_mergeSectionwise] at hmerged
  have hbundles := mergeBundles_absorbs.optional options.processBundles
  have hoverrides := (filter_absorbs Override.isNamed).optional options.loadOverrides
  simp only [mergeSectionwise, Collection.mk.injEq]
  refine ⟨trivial, ?paths, ?bundlePaths, ?shims, ?remaps, ?bundles, ?overrides⟩
  case paths =>
    exact flatMap_between mergePaths_absorbs _ (congrArg Collection.paths hmerged) before after
  case bundlePaths =>
    exact flatMap_between mergePaths_absorbs _ (congrArg Collection.bundlePaths hmerged) before
      after
  case shims =>
    exact flatMap_between mergeShims_absorbs _ (congrArg Collection.shims hmerged) before after
  case remaps =>
    exact flatMap_between mergeRemaps_absorbs _ (congrArg Collection.remaps hmerged) before after
  case bundles =>
    exact flatMap_between hbundles _ (congrArg Collection.bundles hmerged) before after
  case overrides =>
    exact flatMap_between hoverrides _ (congrArg Collection.overrides hmerged) before after

/-- Each collection gives its own warnings, whatever it is merged with. -/
theorem warnings_merge_append (options : MergeOptions) (xs ys : List Collection) :
    (merge options (xs ++ ys)).warnings
      = (merge options xs).warnings ++ (merge options ys).warnings := by
  rw [merge_eq_mergeSectionwise, merge_eq_mergeSectionwise, merge_eq_mergeSectionwise]
  unfold mergeSectionwise
  by_cases ho : options.loadOverrides = true
  · simp only [if_pos ho, List.flatMap_append]
  · simp only [if_neg ho, List.append_nil]

/-- Both parts can be merged first. -/
theorem collection_merge_pair (options : MergeOptions) (xs ys : List Collection) :
    (merge options [(merge options xs).collection, (merge options ys).collection]).collection
      = (merge options (xs ++ ys)).collection := by
  have hlast := collection_merge_between options [(merge options xs).collection] ys []
  have hfirst := collection_merge_between options [] xs ys
  rw [List.append_nil] at hlast
  exact hlast.trans hfirst

/-- A merged collection has no override without a bundle id left. -/
theorem isNamed_of_mem_merge {options : MergeOptions} {xs : List Collection} {o : Override}
    (ho : o ∈ (merge options xs).collection.overrides) : o.isNamed = true := by
  rw [merge_eq_mergeSectionwise] at ho
  change o ∈ (if options.loadOverrides then _ else _) at ho
  split at ho
  · exact (List.mem_filter.mp ho).2
  · exact absurd ho List.not_mem_nil

/-- A merged collection has no override without a bundle. -/
theorem blankOverrides_merge (options : MergeOptions) (xs : List Collection) :
    blankOverrides (merge options xs).collection = [] := by
  unfold blankOverrides
  rw [List.map_eq_nil_iff, List.filter_eq_nil_iff]
  intro o ho
  simp [isNamed_of_mem_merge ho]

/-- So there is nothing to warn of in merged collections. -/
theorem warnings_merge_pair (options : MergeOptions) (xs ys : List Collection) :
    (merge options [(merge options xs).collection, (merge options ys).collection]).warnings
      = [] := by
  have hpair : [(merge options xs).collection, (merge options ys).collection].flatMap
      blankOverrides = [] := by
    rw [List.flatMap_cons, List.flatMap_cons, blankOverrides_merge, blankOverrides_merge]
    rfl
  rw [merge_eq_mergeSectionwise]
  show (if options.loadOverrides then _ else _) = _
  rw [hpair, ite_self]

/-! ## §5. Groups within groups. -/

/-- Collections to be merged, some of them in groups that are merged first, to
any depth. -/
inductive Grouping where
  /-- A collection as it stands. -/
  | single (c : Collection)
  /-- Parts that are merged to one collection. -/
  | group (parts : List Grouping)

namespace Grouping

mutual

/-- The collections inside, in order. -/
def flat : Grouping → List Collection
  | .single c => [c]
  | .group parts => flatAll parts

/-- The collections inside a list of parts, in order. -/
def flatAll : List Grouping → List Collection
  | [] => []
  | part :: parts => part.flat ++ flatAll parts

end

mutual

/-- What stands for the part after every group inside was merged. -/
def merged (options : MergeOptions) : Grouping → Collection
  | .single c => c
  | .group parts => (merge options (mergedAll options parts)).collection

/-- What stands for the parts of a list. -/
def mergedAll (options : MergeOptions) : List Grouping → List Collection
  | [] => []
  | part :: parts => part.merged options :: mergedAll options parts

end

mutual

/-- A merged group stands for its members, by induction on how they are grouped. -/
theorem collection_merge_merged (options : MergeOptions) (before after : List Collection) :
    ∀ part : Grouping,
      (merge options (before ++ part.merged options :: after)).collection
        = (merge options (before ++ part.flat ++ after)).collection
  | .single c => by
      unfold merged flat
      rw [List.append_assoc, List.singleton_append]
  | .group parts => by
      unfold merged flat
      rw [collection_merge_between]
      exact collection_merge_mergedAll options before after parts

theorem collection_merge_mergedAll (options : MergeOptions) (before after : List Collection) :
    ∀ parts : List Grouping,
      (merge options (before ++ mergedAll options parts ++ after)).collection
        = (merge options (before ++ flatAll parts ++ after)).collection
  | [] => rfl
  | part :: parts => by
      -- First the head, with the merged tail behind it; then the tail, with the
      -- collections of the head before it.
      have hparts := collection_merge_mergedAll options (before ++ part.flat) after parts
      have hpart := collection_merge_merged options before (mergedAll options parts ++ after) part
      unfold mergedAll flatAll
      rw [List.append_assoc, List.cons_append, hpart, ← List.append_assoc, hparts,
          List.append_assoc before]

end

end Grouping

/-- **Merging is compositional.**  Merging two parts first changes neither the
collection nor the warnings; a merged part takes the place of its collections
wherever it stands; and the same holds of groups within groups. -/
theorem merge_compositional (options : MergeOptions) :
    (∀ xs ys : List Collection,
      merge options [(merge options xs).collection, (merge options ys).collection]
          = ⟨(merge options (xs ++ ys)).collection, []⟩
        ∧ (merge options (xs ++ ys)).warnings
          = (merge options xs).warnings ++ (merge options ys).warnings)
    ∧ (∀ before xs after : List Collection,
      (merge options (before ++ (merge options xs).collection :: after)).collection
        = (merge options (before ++ xs ++ after)).collection)
    ∧ ∀ parts : List Grouping,
      (merge options (Grouping.mergedAll options parts)).collection
        = (merge options (Grouping.flatAll parts)).collection := by
  refine ⟨fun xs ys => ⟨?_, warnings_merge_append options xs ys⟩,
    collection_merge_between options, fun parts => ?_⟩
  · exact congr (congrArg Outcome.mk (collection_merge_pair options xs ys))
      (warnings_merge_pair options xs ys)
  · have hparts := Grouping.collection_merge_mergedAll options [] [] parts
    rwa [List.nil_append, List.nil_append, List.append_nil, List.append_nil] at hparts

end AmdKit.Loader
