/-
  AmdKit.Loader.Merge
  ────────────────────────────────
  **MERGING CONFIGURATIONS.**

  Collections are merged one after the other.  A later entry overrides an earlier one
  with its key at the position of the earlier one:

      paths      — the last entry of a key wins, default bundle included
      shims      — the last exported name wins; dependencies are joined, and of
                   one that repeats the last occurrence stays
      remaps     — replacements are joined; the last one for an id stays
      bundles    — modules are joined, and behind the last collection those that
                   repeat are dropped, the first stays
      overrides  — all are kept, in order, those with a blank id apart
-/
import AmdKit.Loader.Reader

namespace AmdKit.Loader

open Keyed (keepFirst keepLast upsertAll)

/-! ## §1. Entries. -/

/-- A shim without repeated dependencies. -/
def Shim.distinct (s : Shim) : Shim :=
  { s with dependencies := keepLast id s.dependencies }

/-- A later shim for the same script takes over. -/
def Shim.combine (old new : Shim) : Shim :=
  Shim.distinct ⟨old.forModule, new.exported, old.dependencies ++ new.dependencies⟩

/-- Redirected dependencies, each given once. -/
def Remap.distinct (r : Remap) : Remap :=
  { r with replacements := keepLast Replacement.old r.replacements }

/-- Later replacements for the same consumer take over. -/
def Remap.combine (old new : Remap) : Remap :=
  Remap.distinct ⟨old.forModule, old.replacements ++ new.replacements⟩

/-- A bundle without repeated modules. -/
def Bundle.distinct (b : Bundle) : Bundle :=
  { b with modules := keepFirst id b.modules }

/-- The modules of a later entry for the same bundle are appended. -/
def Bundle.append (old new : Bundle) : Bundle :=
  ⟨old.bundleId, old.modules ++ new.modules⟩

/-! ## §2. One collection. -/

/-- Keep an override that names a bundle, and warn of any other. -/
def mergeOverride (source : String) (merged : Outcome) (o : Override) : Outcome :=
  if o.isNamed then
    { merged with
      collection := { merged.collection with overrides := merged.collection.overrides ++ [o] } }
  else
    { merged with
      warnings := merged.warnings ++ [⟨source, [.member "overrides"], .blankBundleId⟩] }

/-- Add the sections of a collection, overrides apart. -/
def mergeSections (options : MergeOptions) (merged c : Collection) : Collection :=
  { merged with
    paths := upsertAll PathEntry.key (fun _ new => new) c.paths merged.paths
    bundlePaths := upsertAll PathEntry.key (fun _ new => new) c.bundlePaths merged.bundlePaths
    shims := upsertAll Shim.forModule Shim.combine (c.shims.map Shim.distinct) merged.shims
    remaps := upsertAll Remap.forModule Remap.combine (c.remaps.map Remap.distinct) merged.remaps
    bundles :=
      if options.processBundles then
        upsertAll Bundle.bundleId Bundle.append c.bundles merged.bundles
      else merged.bundles }

/-- Add a collection to what has been merged. -/
def mergeNext (options : MergeOptions) (merged : Outcome) (c : Collection) : Outcome :=
  let added := { merged with collection := mergeSections options merged.collection c }
  if options.loadOverrides then
    c.overrides.foldl (mergeOverride (c.source.getD "<unnamed>")) added
  else added

/-! ## §3. Collections. -/

/-- Make the bundles distinct. -/
def mergeFinish (options : MergeOptions) (merged : Outcome) : Outcome :=
  if options.processBundles then
    { merged with
      collection := { merged.collection with
        bundles := merged.collection.bundles.map Bundle.distinct } }
  else merged

/-- Merge collections in order. -/
def merge (options : MergeOptions) (cs : List Collection) : Outcome :=
  mergeFinish options (cs.foldl (mergeNext options) ⟨{ source := none }, []⟩)

end AmdKit.Loader
