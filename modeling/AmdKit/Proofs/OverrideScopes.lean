/-
  AmdKit.Proofs.OverrideScopes
  ────────────────────────────────
  **OVERRIDES DO NOT LEAK.**

  Merging is a loop: each collection is added to what has been merged, all sections
  of it and the warnings in one place.  One step adds the overrides that name a bundle
  behind those that are there, and does not look at them for any other section.  So a
  run keeps them in order, and two runs over collections that agree on the other
  sections agree on them at the end.
-/
import AmdKit.Proofs.Merging
import Mathlib.Data.List.DropRight
import Mathlib.Data.List.Forall2
import Mathlib.Data.List.TakeWhile

namespace AmdKit.Loader

open Keyed (upsertAll)

/-! ## §1. One run. -/

/-- The overrides of a run stand in the order of the collections, and so do the warnings. -/
theorem foldl_mergeNext_overrides {options : MergeOptions} (hload : options.loadOverrides = true)
    (cs : List Collection) (merged : Outcome) :
    (cs.foldl (mergeNext options) merged).collection.overrides
        = merged.collection.overrides ++ cs.flatMap (fun c => c.overrides.filter Override.isNamed)
      ∧ (cs.foldl (mergeNext options) merged).warnings
        = merged.warnings ++ cs.flatMap blankOverrides := by
  induction cs generalizing merged with
  | nil => exact ⟨(List.append_nil _).symm, (List.append_nil _).symm⟩
  | cons c cs ih =>
      obtain ⟨hoverrides, hwarnings⟩ := ih (mergeNext options merged c)
      rw [mergeNext_eq, if_pos hload, if_pos hload] at hoverrides hwarnings
      rw [List.foldl_cons, mergeNext_eq, if_pos hload, if_pos hload, hoverrides, hwarnings,
          List.flatMap_cons, List.flatMap_cons]
      exact ⟨List.append_assoc .., List.append_assoc ..⟩

theorem overrides_mergeFinish (options : MergeOptions) (merged : Outcome) :
    (mergeFinish options merged).collection.overrides = merged.collection.overrides := by
  unfold mergeFinish
  cases options.processBundles <;> rfl

theorem warnings_mergeFinish (options : MergeOptions) (merged : Outcome) :
    (mergeFinish options merged).warnings = merged.warnings := by
  unfold mergeFinish
  cases options.processBundles <;> rfl

/-! ## §2. Two runs. -/

/-- The collections differ only in where they come from and in their overrides. -/
structure Collection.SameSections (c d : Collection) : Prop where
  /-- The same paths. -/
  paths : d.paths = c.paths
  /-- The same bundle paths. -/
  bundlePaths : d.bundlePaths = c.bundlePaths
  /-- The same shims. -/
  shims : d.shims = c.shims
  /-- The same redirected dependencies. -/
  remaps : d.remaps = c.remaps
  /-- The same bundles. -/
  bundles : d.bundles = c.bundles

section

variable {options options' : MergeOptions}
  (hbundles : options'.processBundles = options.processBundles)

include hbundles

/-- **A step does not look at overrides.** -/
theorem Collection.SameSections.next {merged merged' : Outcome} {c c' : Collection}
    (hmerged : merged.collection.SameSections merged'.collection) (hc : c.SameSections c') :
    (mergeNext options merged c).collection.SameSections
      (mergeNext options' merged' c').collection := by
  rw [mergeNext_eq, mergeNext_eq]
  unfold mergeSections
  constructor
  · show upsertAll _ _ _ _ = upsertAll _ _ _ _
    rw [hmerged.paths, hc.paths]
  · show upsertAll _ _ _ _ = upsertAll _ _ _ _
    rw [hmerged.bundlePaths, hc.bundlePaths]
  · show upsertAll _ _ _ _ = upsertAll _ _ _ _
    rw [hmerged.shims, hc.shims]
  · show upsertAll _ _ _ _ = upsertAll _ _ _ _
    rw [hmerged.remaps, hc.remaps]
  · show ite _ _ _ = ite _ _ _
    rw [hbundles, hmerged.bundles, hc.bundles]

theorem Collection.SameSections.run {cs cs' : List Collection}
    (hcs : List.Forall₂ Collection.SameSections cs cs') :
    ∀ {merged merged' : Outcome}, merged.collection.SameSections merged'.collection →
      (cs.foldl (mergeNext options) merged).collection.SameSections
        (cs'.foldl (mergeNext options') merged').collection := by
  induction hcs with
  | nil => exact fun hmerged => hmerged
  | cons hc _ ih => exact fun hmerged => ih (hmerged.next hbundles hc)

theorem Collection.SameSections.finish {merged merged' : Outcome}
    (hmerged : merged.collection.SameSections merged'.collection) :
    (mergeFinish options merged).collection.SameSections
      (mergeFinish options' merged').collection := by
  unfold mergeFinish
  rw [hbundles]
  split
  · exact { hmerged with bundles := congrArg (List.map Bundle.distinct) hmerged.bundles }
  · exact hmerged

end

/-! ## §3. Scopes. -/

/-- The bundle id without the blanks at its ends. -/
def Override.trimmedId (o : Override) : List Char :=
  (o.bundleId.toList.dropWhile Text.isBlank).rdropWhile Text.isBlank

/-- An override names a bundle if something is left of its id. -/
theorem Override.isNamed_eq (o : Override) : o.isNamed = !o.trimmedId.isEmpty := by
  have hblank : Text.allBlank o.bundleId = true ↔ o.trimmedId = [] := by
    unfold Text.allBlank Override.trimmedId
    rw [List.all_eq_true]
    constructor
    · intro h
      rw [List.dropWhile_eq_nil_iff.mpr h]
      rfl
    · intro h
      rw [List.rdropWhile_eq_nil_iff] at h
      cases hrest : o.bundleId.toList.dropWhile Text.isBlank with
      | nil => exact List.dropWhile_eq_nil_iff.mp hrest
      | cons c rest =>
          -- What is left would begin with a character that is not blank.
          have hfirst := List.head?_dropWhile_not Text.isBlank o.bundleId.toList
          rw [hrest] at hfirst h
          have hc : Text.isBlank c = false := hfirst
          rw [h c List.mem_cons_self] at hc
          cases hc
  unfold Override.isNamed
  rw [Bool.eq_iff_iff, Bool.not_eq_true', Bool.not_eq_true', ← Bool.not_eq_true,
      ← Bool.not_eq_true, hblank, List.isEmpty_iff]

/-- **Overrides are scoped.**  The merged overrides are those of the collections whose ids
are not blank, unchanged and in order; of each of the others there is a warning that names
its collection.  So the overrides that hold for a script are those that hold for it in the
collections.  And overrides change nothing else: what is merged from collections that
differ only in them, and in where they come from, differs only in the overrides. -/
theorem merge_overrides_scoped :
    (∀ (options : MergeOptions) (cs : List Collection), options.loadOverrides = true →
      (merge options cs).collection.overrides
          = cs.flatMap (fun c => c.overrides.filter fun o => !o.trimmedId.isEmpty)
        ∧ (merge options cs).warnings
          = cs.flatMap (fun c => (c.overrides.filter fun o => o.trimmedId.isEmpty).map fun _ =>
              ⟨c.source.getD "<unnamed>", [.member "overrides"], .blankBundleId⟩)
        ∧ ∀ script, (merge options cs).collection.overridesFor script
          = cs.flatMap fun c => (c.overridesFor script).filter fun o => !o.trimmedId.isEmpty)
    ∧ ∀ (options options' : MergeOptions) (cs cs' : List Collection),
      options'.processBundles = options.processBundles →
      List.Forall₂ Collection.SameSections cs cs' →
      (merge options cs).collection.SameSections (merge options' cs').collection := by
  refine ⟨fun options cs hload => ?_, fun options options' cs cs' hbundles hcs => ?_⟩
  · have hnamed : Override.isNamed = fun o => !o.trimmedId.isEmpty :=
      funext Override.isNamed_eq
    have hrun := foldl_mergeNext_overrides hload cs ⟨{ source := none }, []⟩
    -- The last step drops bundles only, so the overrides are those of the loop.
    have hoverrides : (merge options cs).collection.overrides
        = cs.flatMap (fun c => c.overrides.filter fun o => !o.trimmedId.isEmpty) := by
      rw [merge, overrides_mergeFinish, hrun.1, hnamed]
      rfl
    refine ⟨hoverrides, ?_, fun script => ?_⟩
    · rw [merge, warnings_mergeFinish, hrun.2, List.nil_append]
      refine List.flatMap_congr fun c _ => ?_
      unfold blankOverrides
      rw [hnamed]
      simp only [Bool.not_not]
    · unfold Collection.overridesFor
      rw [hoverrides, List.filter_flatMap]
      exact List.flatMap_congr fun c _ => List.filter_comm _ _ _
  · exact (Collection.SameSections.run hbundles hcs ⟨rfl, rfl, rfl, rfl, rfl⟩).finish hbundles

/-- An id that is a no-break space, and one that is empty. -/
theorem merge_overrides_scoped_blank :
    let kept : Override := ⟨" a", [⟨"m", "n", none⟩], [], [], ["x"]⟩
    let first : Collection :=
      { source := some "in.json", overrides := [⟨"\u00a0", [], [], [], ["x"]⟩, kept] }
    let second : Collection := { overrides := [⟨"", [], [], [], []⟩] }
    let merged := merge { loadOverrides := true } [first, second]
    merged.collection.overridesFor "x" = [kept]
      ∧ merged.warnings = [⟨"in.json", [.member "overrides"], .blankBundleId⟩,
          ⟨"<unnamed>", [.member "overrides"], .blankBundleId⟩]
      ∧ merged.collection.SameSections (merge {} [{}, {}]).collection := by
  intro kept first second merged
  obtain ⟨hscoped, hsame⟩ := merge_overrides_scoped
  obtain ⟨-, hwarnings, hscript⟩ := hscoped { loadOverrides := true } [first, second] rfl
  refine ⟨(hscript "x").trans (by decide), hwarnings.trans (by decide), hsame _ _ _ _ rfl ?_⟩
  exact .cons ⟨rfl, rfl, rfl, rfl, rfl⟩ (.cons ⟨rfl, rfl, rfl, rfl, rfl⟩ .nil)

end AmdKit.Loader
