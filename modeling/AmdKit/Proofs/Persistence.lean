/-
  AmdKit.Proofs.Persistence
  ────────────────────────────────
  **SAVING A MERGE HALF WAY.**

  A merged collection can be written to a document, read back, and merged with
  what follows.  What is written in the end is the same as if the merge had never
  been saved:

      merge (reread :: ys)  is written like  merge (xs ++ ys)

  Reading back gives the normal form and not the collection itself, so the two
  merges may differ.  They are `Alike`: equal but for what their normal forms do
  not keep.  Merging respects that section by section, and the document can not
  see it.
-/
import AmdKit.Proofs.Merging
import AmdKit.Proofs.Rereading

namespace AmdKit.Loader

open Keyed

/-! ## §1. Collections that are written alike. -/

/-- The collections differ at most in empty annotations and in what is repeated
within an override. -/
structure Collection.Alike (c d : Collection) : Prop where
  paths : c.paths.map PathEntry.normal = d.paths.map PathEntry.normal
  bundlePaths : c.bundlePaths.map PathEntry.normal = d.bundlePaths.map PathEntry.normal
  shims : c.shims.map Shim.normal = d.shims.map Shim.normal
  remaps : c.remaps = d.remaps
  bundles : c.bundles = d.bundles
  overrides : c.overrides.map Override.normal = d.overrides.map Override.normal

/-- Sections with the same normal forms are empty together. -/
theorem isEmpty_eq_of_map {α : Type} {normal : α → α} {xs ys : List α}
    (h : xs.map normal = ys.map normal) : xs.isEmpty = ys.isEmpty := by
  have hempty := congrArg List.isEmpty h
  rwa [List.isEmpty_map, List.isEmpty_map] at hempty

/-- Sections with the same normal forms are written alike. -/
theorem WrittenAlike.ofMembers_congr {α : Type} {key : α → String} {write : α → Json}
    {normal : α → α} (hw : WrittenAlike key write normal) {xs ys : List α}
    (h : xs.map normal = ys.map normal) :
    Json.ofMembers (entryMembers key write xs) = Json.ofMembers (entryMembers key write ys) := by
  rw [← hw.ofMembers_map xs, h, hw.ofMembers_map]

/-- **Alike collections are the same document.** -/
theorem Collection.Alike.toJson_eq {c d : Collection} (h : c.Alike d) : c.toJson = d.toJson := by
  have hpaths : pathsJson c.paths = pathsJson d.paths :=
    pathEntry_writtenAlike.ofMembers_congr h.paths
  have hbundlePaths : pathsJson c.bundlePaths = pathsJson d.bundlePaths :=
    pathEntry_writtenAlike.ofMembers_congr h.bundlePaths
  have hshims : shimsJson c.shims = shimsJson d.shims :=
    shim_writtenAlike.ofMembers_congr h.shims
  have hoverrides : c.overrides.map Override.toJson = d.overrides.map Override.toJson := by
    have hnormal : ∀ os : List Override,
        os.map Override.toJson = (os.map Override.normal).map Override.toJson := by
      intro os
      rw [List.map_map]
      exact List.map_congr_left fun o _ => o.toJson_normal.symm
    rw [hnormal, h.overrides, ← hnormal]
  unfold Collection.toJson
  rw [hpaths, hbundlePaths, hshims, h.remaps, h.bundles, hoverrides, isEmpty_eq_of_map h.paths,
      isEmpty_eq_of_map h.bundlePaths, isEmpty_eq_of_map h.shims, isEmpty_eq_of_map h.overrides]

/-! ## §2. Merging respects likeness. -/

/-- Entries may be brought into their normal form before they are merged, or behind that.
-/
theorem map_normal_mergePaths (ps : List PathEntry) :
    (mergePaths ps).map PathEntry.normal = mergePaths (ps.map PathEntry.normal) := by
  have hkey : ∀ p : PathEntry, p.normal.key = p.key := fun _ => rfl
  exact map_upsertAll hkey (fun _ _ => rfl) ps []

theorem map_normal_mergeShims (ss : List Shim) :
    (mergeShims ss).map Shim.normal = mergeShims (ss.map Shim.normal) := by
  have hkey : ∀ s : Shim, s.normal.forModule = s.forModule := fun _ => rfl
  -- One rule reads the dependencies and the other the exported name.
  have hcombine : ∀ a b : Shim, (a.combine b).normal = a.normal.combine b.normal :=
    fun _ _ => rfl
  have hdistinct : (ss.map Shim.distinct).map Shim.normal
      = (ss.map Shim.normal).map Shim.distinct := by
    rw [List.map_map, List.map_map]
    rfl
  show (upsertAll _ _ (ss.map Shim.distinct) []).map Shim.normal = _
  rw [map_upsertAll hkey hcombine, hdistinct]
  rfl

theorem map_normal_filter_isNamed (os : List Override) :
    (os.filter Override.isNamed).map Override.normal
      = (os.map Override.normal).filter Override.isNamed := by
  rw [List.filter_map]
  rfl

/-- What a rule makes of two sections that are alike in front of the same entries. -/
theorem map_rule_append {α : Type} {normal : α → α} {rule : List α → List α}
    (hrule : ∀ xs, (rule xs).map normal = rule (xs.map normal)) {xs ys : List α}
    (h : xs.map normal = ys.map normal) (after : List α) :
    (rule (xs ++ after)).map normal = (rule (ys ++ after)).map normal := by
  rw [hrule, hrule, List.map_append, List.map_append, h]

/-- **Merging respects likeness.** -/
theorem Collection.Alike.merge {c d : Collection} (h : c.Alike d) (options : MergeOptions)
    (after : List Collection) :
    (Loader.merge options (c :: after)).collection.Alike
      (Loader.merge options (d :: after)).collection := by
  -- Remaps and bundles are the same, so any rule makes the same of them; the others
  -- have a rule that can be exchanged with taking normal forms.
  have hbundles : (c :: after).flatMap Collection.bundles
      = (d :: after).flatMap Collection.bundles := by
    rw [List.flatMap_cons, List.flatMap_cons, h.bundles]
  rw [merge_eq_mergeSectionwise, merge_eq_mergeSectionwise]
  constructor
  case paths => exact map_rule_append map_normal_mergePaths h.paths _
  case bundlePaths => exact map_rule_append map_normal_mergePaths h.bundlePaths _
  case shims => exact map_rule_append map_normal_mergeShims h.shims _
  case remaps =>
    show mergeRemaps (c.remaps ++ _) = mergeRemaps (d.remaps ++ _)
    rw [h.remaps]
  case bundles =>
    show (if options.processBundles then _ else _) = if options.processBundles then _ else _
    rw [hbundles]
  case overrides =>
    show (if options.loadOverrides then _ else _ : List Override).map Override.normal
      = (if options.loadOverrides then _ else _ : List Override).map Override.normal
    by_cases ho : options.loadOverrides = true
    · rw [if_pos ho, if_pos ho]
      exact map_rule_append map_normal_filter_isNamed h.overrides _
    · rw [if_neg ho, if_neg ho]

/-! ## §3. Merged collections. -/

/-- Every key once, and every override with a bundle id. -/
structure Collection.Settled (c : Collection) : Prop where
  paths : (c.paths.map PathEntry.key).Nodup
  bundlePaths : (c.bundlePaths.map PathEntry.key).Nodup
  shims : (c.shims.map Shim.forModule).Nodup
  remaps : (c.remaps.map Remap.forModule).Nodup
  replacements : ∀ r ∈ c.remaps, (r.replacements.map Replacement.old).Nodup
  bundles : (c.bundles.map Bundle.bundleId).Nodup
  overrides : ∀ o ∈ c.overrides, o.isNamed

/-- Gathered entries have each key once. -/
theorem nodup_keys_gather {α : Type} {key : α → String} {distinct : α → α}
    {combine : α → α → α} (h : Gathers key distinct combine) (xs : List α) :
    ((gather key distinct combine xs).map key).Nodup :=
  nodup_keys_upsertAll h.toAssociative List.nodup_nil

/-- In a merged collection no key is left twice. -/
theorem settled_merge (options : MergeOptions) (xs : List Collection) :
    (merge options xs).collection.Settled := by
  have hnamed := @isNamed_of_mem_merge options xs
  rw [merge_eq_mergeSectionwise] at hnamed ⊢
  constructor
  case paths =>
    show ((mergePaths _).map PathEntry.key).Nodup
    rw [mergePaths_eq_gather]
    exact nodup_keys_gather pathEntry_gathers _
  case bundlePaths =>
    show ((mergePaths _).map PathEntry.key).Nodup
    rw [mergePaths_eq_gather]
    exact nodup_keys_gather pathEntry_gathers _
  case shims => exact nodup_keys_gather shim_gathers _
  case remaps => exact nodup_keys_gather remap_gathers _
  case replacements =>
    intro r hr
    -- What was gathered is distinct, and `keepLast` leaves each id once.
    have hdistinct : r.distinct = r := distinct_of_mem_gather remap_gathers _ r hr
    rw [← hdistinct]
    exact nodup_keys_keepLast r.replacements
  case bundles =>
    show ((if options.processBundles then _ else _ : List Bundle).map Bundle.bundleId).Nodup
    by_cases hb : options.processBundles = true
    · rw [if_pos hb, mergeBundles_eq_gather]
      exact nodup_keys_gather bundle_gathers _
    · rw [if_neg hb]
      exact List.nodup_nil
  case overrides => exact fun o ho => hnamed ho

/-- Where no key occurs twice, a section in its normal form has the normal forms of its
entries. -/
theorem WrittenAlike.map_normal_normalEntries {α : Type} {key : α → String} {write : α → Json}
    {normal : α → α} (hw : WrittenAlike key write normal) {xs : List α}
    (h : (xs.map key).Nodup) :
    (normalEntries key normal xs).map normal = xs.map normal := by
  rw [normalEntries_of_nodup h, hw.map_map_normal]

/-- **A collection with every key once is like its normal form.** -/
theorem Collection.Settled.alike_normal {c : Collection} (h : c.Settled) (name : String) :
    (c.normal name).Alike c := by
  constructor
  case paths => exact pathEntry_writtenAlike.map_normal_normalEntries h.paths
  case bundlePaths => exact pathEntry_writtenAlike.map_normal_normalEntries h.bundlePaths
  case shims => exact shim_writtenAlike.map_normal_normalEntries h.shims
  case remaps =>
    show normalEntries Remap.forModule Remap.normal c.remaps = c.remaps
    rw [normalEntries_of_nodup h.remaps]
    exact (List.map_congr_left fun r hr => Remap.normal_of_nodup (h.replacements r hr)).trans
      (List.map_id _)
  case bundles =>
    show normalEntries Bundle.bundleId id c.bundles = c.bundles
    rw [normalEntries_of_nodup h.bundles, List.map_id]
  case overrides =>
    show ((c.overrides.filter Override.isNamed).map Override.normal).map Override.normal = _
    rw [List.filter_eq_self.mpr h.overrides, List.map_map]
    exact List.map_congr_left fun o _ => o.normal_normal

/-! ## §4. Saved merges. -/

/-- Nothing is lost when a merged collection is read back. -/
theorem dropped_merge (options : MergeOptions) (xs : List Collection) (name : String) :
    (merge options xs).collection.dropped name = [] := by
  unfold Collection.dropped
  rw [unnamed_eq_nil (settled_merge options xs).overrides, List.map_nil]

/-- A saved merge stands for the collections that it comes from. -/
theorem toJson_merge_normal (options : MergeOptions) (xs ys : List Collection) (name : String) :
    (merge options ((merge options xs).collection.normal name :: ys)).collection.toJson
      = (merge options (xs ++ ys)).collection.toJson := by
  -- First the normal form gives way to the merge itself, and then the merge to `xs`.
  have halike := (settled_merge options xs).alike_normal name
  have hstaged := collection_merge_between options [] xs ys
  rw [(halike.merge options ys).toJson_eq]
  exact congrArg Collection.toJson hstaged

/-- **Saving a merge changes nothing that is written later.**  Both texts of a merged
collection are read back, to one collection and without a warning.  Merged with what
follows, that collection is written like the collections all merged at once; and with
nothing following, it is written like the merge that was saved. -/
theorem merge_saved (options : MergeOptions) (xs : List Collection) (name : String) :
    let merged := (merge options xs).collection
    ∃ reread, parse merged.toJson.render name = .ok ⟨reread, []⟩
      ∧ parse merged.toJson.renderPretty name = .ok ⟨reread, []⟩
      ∧ (∀ ys, (merge options (reread :: ys)).collection.toJson
          = (merge options (xs ++ ys)).collection.toJson)
      ∧ (merge options [reread]).collection.toJson = merged.toJson := by
  intro merged
  obtain ⟨hrender, hpretty⟩ := parse_texts merged name
  rw [dropped_merge] at hrender hpretty
  have hlater : ∀ ys, (merge options (merged.normal name :: ys)).collection.toJson
      = (merge options (xs ++ ys)).collection.toJson := by
    intro ys
    exact toJson_merge_normal options xs ys name
  have hnone := hlater []
  rw [List.append_nil] at hnone
  exact ⟨merged.normal name, hrender, hpretty, hlater, hnone⟩

end AmdKit.Loader
