/-
  AmdKit.Proofs.MergeOrder
  ────────────────────────────────
  **WHAT THE ORDER OF COLLECTIONS DECIDES.**

  Of the path entries with one key the last one counts, and it counts as a whole:
  an entry without a default bundle takes that of an earlier one away.

      path? key    =  the last of all entries with the key
      bundle? id   =  the modules of all entries for the bundle, each where it stands first

  Modules are appended while the collections are merged, and repeated ones are dropped
  behind the last collection.  Nobody can tell: dropping them behind every collection
  gives the same outcome, because a step does not depend on repeated modules in what it
  is added to, once its own result is made distinct:

      finish (next (finish merged) c)  =  finish (next merged c)
-/
import AmdKit.Proofs.MergedEntries
import AmdKit.Proofs.OverrideScopes

namespace AmdKit.Loader

open Keyed

/-! ## §1. Paths. -/

/-- Under each key the last of the entries with it is found, as it stands, and nothing
is found under a key that no entry has. -/
structure LastWins (entries : List PathEntry) (found : String → Option PathEntry) : Prop where
  /-- The last entry with the key is found. -/
  last : ∀ key, found key = (entries.filter fun p => p.key = key).getLast?
  /-- Something is found if there is an entry. -/
  none_iff : ∀ key, found key = none ↔ ∀ p ∈ entries, p.key ≠ key

theorem mergePaths_lastWins (entries : List PathEntry) :
    LastWins entries fun key => find? PathEntry.key key (mergePaths entries) := by
  have hlast : ∀ key, find? PathEntry.key key (mergePaths entries)
      = (entries.filter fun p => p.key = key).getLast? := by
    intro key
    show find? PathEntry.key key (upsertAll PathEntry.key (fun _ new => new) entries []) = _
    rw [find?_replaceAll]
    exact Option.or_none
  refine ⟨hlast, ?_⟩
  intro key
  show find? PathEntry.key key (mergePaths entries) = none ↔ _
  rw [hlast, List.getLast?_eq_none_iff, List.filter_eq_nil_iff]
  simp only [decide_eq_true_eq]

/-- **The paths of a merged collection.**  A module is found where the last entry for it
says, whichever collection the entry is in and wherever it stands there, and with the
default bundle of that entry or none.  The same holds of bundles.  What is merged of the
one section depends on that section of the collections, and on nothing else. -/
theorem path?_merge (options : MergeOptions) (cs : List Collection) :
    LastWins (cs.flatMap Collection.paths) (merge options cs).collection.path?
    ∧ LastWins (cs.flatMap Collection.bundlePaths) (merge options cs).collection.bundlePath?
    ∧ ∀ (options' : MergeOptions) (cs' : List Collection),
      (cs'.map Collection.paths = cs.map Collection.paths →
        (merge options' cs').collection.paths = (merge options cs).collection.paths)
      ∧ (cs'.map Collection.bundlePaths = cs.map Collection.bundlePaths →
        (merge options' cs').collection.bundlePaths
          = (merge options cs).collection.bundlePaths) := by
  rw [merge_eq_mergeSectionwise]
  refine ⟨mergePaths_lastWins _, mergePaths_lastWins _, ?_⟩
  intro options' cs'
  rw [merge_eq_mergeSectionwise]
  constructor
  · intro hpaths
    show mergePaths (cs'.flatMap Collection.paths) = mergePaths (cs.flatMap Collection.paths)
    rw [List.flatMap_def, List.flatMap_def, hpaths]
  · intro hbundlePaths
    show mergePaths (cs'.flatMap Collection.bundlePaths)
      = mergePaths (cs.flatMap Collection.bundlePaths)
    rw [List.flatMap_def, List.flatMap_def, hbundlePaths]

/-- A key that repeats within a collection and in a later one, where it has lost its default
bundle; the bundle path under the same key stays apart. -/
theorem path?_merge_repeated :
    let first : Collection :=
      { paths := [⟨"x", "a", none⟩, ⟨"y", "b", none⟩, ⟨"x", "c", some "core"⟩]
        bundlePaths := [⟨"x", "bundles/x", none⟩] }
    let second : Collection := { paths := [⟨"x", "d", none⟩] }
    let merged := (merge {} [first, second]).collection
    merged.path? "x" = some ⟨"x", "d", none⟩
      ∧ merged.bundlePath? "x" = some ⟨"x", "bundles/x", none⟩
      ∧ merged.bundlePath? "y" = none
      ∧ (merge { loadOverrides := true } [{ first with bundlePaths := [] }, second]).collection.paths
        = merged.paths := by
  intro first second merged
  obtain ⟨hpaths, hbundlePaths, halone⟩ := path?_merge {} [first, second]
  refine ⟨(hpaths.last "x").trans (by decide), (hbundlePaths.last "x").trans (by decide),
    (hbundlePaths.none_iff "y").mpr (by decide), ?_⟩
  exact (halone { loadOverrides := true } [{ first with bundlePaths := [] }, second]).1 rfl

/-! ## §2. Bundles. -/

theorem bundle_append_associative : Associative Bundle.bundleId Bundle.append where
  key_combine _ _ _ := rfl
  assoc a b c := by
    unfold Bundle.append
    rw [List.append_assoc]

/-- Entries for one bundle combine to all of their modules. -/
theorem joined_bundles {id : String} {bs : List Bundle} (hid : ∀ b ∈ bs, b.bundleId = id)
    (hne : bs ≠ []) :
    joined Bundle.append bs = some ⟨id, bs.flatMap Bundle.modules⟩ := by
  have hbundle : ∀ a b : Bundle, (a.append b).bundleId = a.bundleId := fun _ _ => rfl
  have hmodules : ∀ a b : Bundle, (a.append b).modules = a.modules ++ b.modules :=
    fun _ _ => rfl
  obtain ⟨b, hjoined, hb, hitems⟩ := exists_joined hbundle hmodules hid hne
  rw [hjoined, ← hb, ← hitems]

theorem find?_mergeBundles (id : String) (entries : List Bundle) :
    find? Bundle.bundleId id (mergeBundles entries)
      = (joined Bundle.append (entries.filter fun b => b.bundleId = id)).map
          Bundle.distinct := by
  have hkey : ∀ b : Bundle, b.distinct.bundleId = b.bundleId := fun _ => rfl
  unfold mergeBundles
  rw [find?_map hkey, find?_upsertAll bundle_append_associative]

/-! ### One collection at a time -/

/-- Merge collections one by one, and make the bundles distinct behind each of them. -/
def mergeEagerly (options : MergeOptions) (cs : List Collection) : Outcome :=
  cs.foldl (fun merged c => mergeFinish options (mergeNext options merged c))
    ⟨{ source := none }, []⟩

/-- **A step does not depend on repeated modules**, if they are dropped behind it. -/
theorem mergeFinish_mergeNext (options : MergeOptions) (merged : Outcome) (c : Collection) :
    mergeFinish options (mergeNext options (mergeFinish options merged) c)
      = mergeFinish options (mergeNext options merged c) := by
  rw [mergeNext_eq, mergeNext_eq, overrides_mergeFinish, warnings_mergeFinish]
  unfold mergeFinish mergeSections
  cases options.processBundles with
  | false => rfl
  | true =>
      -- What was stored is distinct on the left only, and is made so on the right with the rest.
      have hstored : (merged.collection.bundles.map Bundle.distinct).map Bundle.distinct
          = merged.collection.bundles.map Bundle.distinct := by
        rw [List.map_map]
        exact List.map_congr_left fun b _ => bundle_gathers.distinct_distinct b
      simp only [if_true, map_distinct_upsertAll, hstored]

theorem foldl_mergeFinish (options : MergeOptions) (cs : List Collection) (merged : Outcome) :
    cs.foldl (fun merged c => mergeFinish options (mergeNext options merged c))
        (mergeFinish options merged)
      = mergeFinish options (cs.foldl (mergeNext options) merged) := by
  induction cs generalizing merged with
  | nil => rfl
  | cons c cs ih =>
      rw [List.foldl_cons, List.foldl_cons, mergeFinish_mergeNext]
      exact ih (mergeNext options merged c)

theorem merge_eq_mergeEagerly (options : MergeOptions) (cs : List Collection) :
    merge options cs = mergeEagerly options cs := by
  have hstart : mergeFinish options ⟨{ source := none }, []⟩ = ⟨{ source := none }, []⟩ := by
    unfold mergeFinish
    cases options.processBundles with
    | false => rfl
    | true => rfl
  unfold merge mergeEagerly
  rw [← foldl_mergeFinish, hstart]

/-- **The bundles of a merged collection.**  A bundle that no collection has an entry for
is not there.  Any other bundle has the modules of all its entries in a row, each where it
stands first.  When repeated modules are dropped cannot be told from the outcome: it is
the same if they are dropped behind every collection. -/
theorem bundle?_merge {options : MergeOptions} (hbundles : options.processBundles = true)
    (cs : List Collection) :
    (∀ id : String,
      let entries := (cs.flatMap Collection.bundles).filter fun b => b.bundleId = id
      (entries = [] → (merge options cs).collection.bundle? id = none)
      ∧ (entries ≠ [] → (merge options cs).collection.bundle? id
          = some ⟨id, (entries.flatMap Bundle.modules).eraseDups⟩))
    ∧ merge options cs = mergeEagerly options cs := by
  refine ⟨?_, merge_eq_mergeEagerly options cs⟩
  intro id entries
  have hentries : ∀ b ∈ entries, b.bundleId = id := by
    intro b hb
    simpa using (List.mem_filter.mp hb).2
  -- Filtering at the end finds what the entries with this id have been put together to.
  have hfind : (merge options cs).collection.bundle? id
      = (joined Bundle.append entries).map Bundle.distinct := by
    rw [merge_eq_mergeSectionwise]
    show find? Bundle.bundleId id (if options.processBundles then _ else _) = _
    rw [if_pos hbundles]
    exact find?_mergeBundles id (cs.flatMap Collection.bundles)
  constructor
  · intro hnil
    rw [hfind, hnil]
    rfl
  · intro hne
    rw [hfind, joined_bundles hentries hne, ← keepFirst_eq_eraseDups]
    rfl

/-- Modules that repeat in the first collection, across both, and not at all. -/
theorem bundle?_merge_repeated :
    let options : MergeOptions := { processBundles := true }
    let cs : List Collection :=
      [{ bundles := [⟨"core", ["a", "b", "a"]⟩, ⟨"extra", ["d"]⟩, ⟨"core", ["b", "c"]⟩] },
        { bundles := [⟨"core", ["e", "a"]⟩] }]
    (merge options cs).collection.bundle? "core" = some ⟨"core", ["a", "b", "c", "e"]⟩
      ∧ (merge options cs).collection.bundle? "none" = none
      ∧ merge options cs = mergeEagerly options cs := by
  intro options cs
  have hbundles : options.processBundles = true := rfl
  obtain ⟨hmodules, heager⟩ := bundle?_merge hbundles cs
  exact ⟨((hmodules "core").2 (by decide)).trans (by decide), (hmodules "none").1 (by decide),
    heager⟩

end AmdKit.Loader
