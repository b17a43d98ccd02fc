/-
  AmdKit.Proofs.NormalForm
  ────────────────────────────────
  **WHAT A DOCUMENT CAN SHOW OF A COLLECTION.**

  A collection that was built by hand may repeat a key, or carry an annotation
  that is empty.  A document shows neither: a key that repeats within a section
  keeps its first position and takes its last entry, and an empty annotation is
  not written.  `Collection.normal name c` is the collection that remains:

      every section           — collapsed, each key once
      default bundle, export  — none if it is empty
      replacements            — collapsed by the id that is asked for
      overrides               — those that name a bundle
      source                  — the name of the document

  The normal form is written like the collection itself, as long as no override
  is lost:

      (c.normal name).toJson  =  c.toJson
-/
import Mathlib.Data.List.Induction
import AmdKit.Loader.Writer
import AmdKit.Proofs.JsonText
import AmdKit.Proofs.KeyedLookups

namespace AmdKit.Keyed

/-! ## §1. Collapsing. -/

variable {α κ : Type} [DecidableEq κ] {key : α → κ}

/-- The last of the entries with the key of `x`; `x` itself without one. -/
def lastLike (key : α → κ) (xs : List α) (x : α) : α :=
  (find? key (key x) xs.reverse).getD x

/-- Each key once, at its first position and with its last entry. -/
def collapse (key : α → κ) (xs : List α) : List α :=
  (keepFirst key xs).map (lastLike key xs)

/-- The last entry like another one has the key of that one. -/
theorem key_lastLike (xs : List α) (x : α) : key (lastLike key xs x) = key x := by
  unfold lastLike find?
  cases hfind : xs.reverse.find? fun y => decide (key y = key x) with
  | none => rfl
  | some y => simpa using List.find?_some hfind

/-- An entry at the end is the last one like all that have its key. -/
theorem lastLike_concat (xs : List α) (x y : α) :
    lastLike key (xs ++ [x]) y = if key x = key y then x else lastLike key xs y := by
  unfold lastLike
  rw [List.reverse_concat, find?_cons]
  by_cases hk : key x = key y
  · rw [if_pos hk, if_pos hk]
    rfl
  · rw [if_neg hk, if_neg hk]

/-- An entry at the end is kept if its key has not occurred. -/
theorem keepFirst_concat (xs : List α) (x : α) :
    keepFirst key (xs ++ [x])
      = keepFirst key xs ++ if key x ∈ xs.map key then [] else [x] := by
  unfold keepFirst
  rw [keepFirstFrom_append, List.append_nil]
  by_cases hx : key x ∈ xs.map key
  · rw [if_pos hx, keepFirstFrom, if_pos hx, keepFirstFrom]
  · rw [if_neg hx, keepFirstFrom, if_neg hx, keepFirstFrom]

/-- Collapsing keeps each key at its first place. -/
theorem keys_collapse (xs : List α) : (collapse key xs).map key = (keepFirst key xs).map key := by
  unfold collapse
  rw [List.map_map]
  exact List.map_congr_left fun x _ => key_lastLike xs x

/-- An entry whose key is there takes the place of the only one with it. -/
theorem put_of_mem {x : α} {acc : List α} (hn : (acc.map key).Nodup)
    (hx : key x ∈ acc.map key) :
    put key x acc = acc.map fun y => if key x = key y then x else y := by
  unfold put
  induction acc with
  | nil => exact absurd hx List.not_mem_nil
  | cons y ys ih =>
      rw [List.map_cons, List.nodup_cons] at hn
      rw [List.map_cons, upsert]
      by_cases hy : key y = key x
      · -- No entry behind `y` has its key, so the map leaves them alone.
        have hrest : ys.map (fun z => if key x = key z then x else z) = ys := by
          refine (List.map_congr_left fun z hz => ?_).trans (List.map_id ys)
          exact if_neg fun hk => hn.1 (List.mem_map.mpr ⟨z, hz, hk.symm.trans hy.symm⟩)
        rw [if_pos hy, if_pos hy.symm, hrest]
      · rw [List.map_cons, List.mem_cons] at hx
        rw [if_neg hy, if_neg (Ne.symm hy), ih hn.2 (hx.resolve_left fun hk => hy hk.symm)]

/-- **Entries that take each other's place are collapsed.** -/
theorem upsertAll_eq_collapse (xs : List α) :
    upsertAll key (fun _ new => new) xs [] = collapse key xs := by
  induction xs using List.reverseRecOn with
  | nil => rfl
  | append_singleton xs x ih =>
      have hmem : key x ∈ (collapse key xs).map key ↔ key x ∈ xs.map key := by
        rw [keys_collapse, mem_keys_keepFirst]
      have hlast : collapse key (xs ++ [x])
          = (keepFirst key (xs ++ [x])).map
              fun y => if key x = key y then x else lastLike key xs y :=
        List.map_congr_left fun y _ => lastLike_concat xs x y
      rw [upsertAll_append, ih, hlast, keepFirst_concat]
      show put key x (collapse key xs) = _
      by_cases hx : key x ∈ xs.map key
      · -- The key is there: no new position, and `x` is now the last entry with it.
        have hn : ((collapse key xs).map key).Nodup :=
          ih ▸ nodup_keys_upsertAll replace_associative List.nodup_nil
        rw [put_of_mem hn (hmem.mpr hx), if_pos hx, List.append_nil]
        unfold collapse
        rw [List.map_map]
        refine List.map_congr_left fun y _ => ?_
        simp only [Function.comp_apply, key_lastLike]
      · -- The key is new: `x` gets a position of its own, and no other entry changes.
        have hsame : (keepFirst key xs).map (fun y => if key x = key y then x else lastLike key xs y)
            = collapse key xs := by
          refine List.map_congr_left fun y hy => if_neg fun hk => hx ?_
          rw [hk, ← mem_keys_keepFirst]
          exact List.mem_map_of_mem hy
        rw [if_neg hx, List.map_append, List.map_singleton, if_pos rfl, hsame]
        exact upsert_of_notMem fun hk => hx (hmem.mp hk)

/-- No key is left twice. -/
theorem nodup_keys_collapse (xs : List α) : ((collapse key xs).map key).Nodup := by
  rw [← upsertAll_eq_collapse]
  exact nodup_keys_upsertAll replace_associative List.nodup_nil

/-- Where no key occurs twice nothing collapses. -/
theorem collapse_of_nodup {xs : List α} (h : (xs.map key).Nodup) : collapse key xs = xs :=
  (upsertAll_eq_collapse xs).symm.trans (upsertAll_of_nodup h)

theorem isEmpty_collapse (xs : List α) : (collapse key xs).isEmpty = xs.isEmpty := by
  cases xs with
  | nil => rfl
  | cons x xs => rfl

end AmdKit.Keyed

namespace AmdKit.Loader

open Keyed
open Json (Members)

/-! ## §2. Sections. -/

section

variable {α : Type} {key : α → String} {write : α → Json} {normal : α → α}

/-- The member that an entry is written as. -/
def entryMember (key : α → String) (write : α → Json) (x : α) : String × Json :=
  (key x, write x)

/-- The members of a section, one for each entry. -/
def entryMembers (key : α → String) (write : α → Json) (xs : List α) : Members :=
  xs.map (entryMember key write)

/-- What a section shows of its entries. -/
def normalEntries (key : α → String) (normal : α → α) (xs : List α) : List α :=
  (collapse key xs).map normal

/-- An entry has the key of its normal form, is written like it, and has no other
normal form. -/
structure WrittenAlike (key : α → String) (write : α → Json) (normal : α → α) : Prop where
  key_normal : ∀ x, key (normal x) = key x
  write_normal : ∀ x, write (normal x) = write x
  normal_normal : ∀ x, normal (normal x) = normal x

theorem names_entryMembers (xs : List α) :
    (entryMembers key write xs).map Prod.fst = xs.map key := by
  unfold entryMembers
  rw [List.map_map]
  rfl

/-- A section has a member for each collapsed entry. -/
theorem ofMembers_entryMembers (xs : List α) :
    Json.ofMembers (entryMembers key write xs)
      = .object (entryMembers key write (collapse key xs)) := by
  -- An object takes its members in the way in which entries take each other's place.
  have hkey : ∀ x, (entryMember key write x).1 = key x := fun _ => rfl
  have hset : entryMembers key write (upsertAll key (fun _ new => new) xs [])
      = Members.setAll [] (entryMembers key write xs) := map_upsertAll hkey (fun _ _ => rfl) xs []
  rw [← upsertAll_eq_collapse, hset]
  rfl

/-- The normal form of an entry has the key of the entry. -/
theorem WrittenAlike.map_key_normal (h : WrittenAlike key write normal) (xs : List α) :
    (xs.map normal).map key = xs.map key := by
  rw [List.map_map]
  exact List.map_congr_left fun x _ => h.key_normal x

/-- Entries and their normal forms are written alike. -/
theorem WrittenAlike.entryMembers_map (h : WrittenAlike key write normal) (xs : List α) :
    entryMembers key write (xs.map normal) = entryMembers key write xs := by
  unfold entryMembers
  rw [List.map_map]
  refine List.map_congr_left fun x _ => ?_
  show (key (normal x), write (normal x)) = (key x, write x)
  rw [h.key_normal, h.write_normal]

theorem WrittenAlike.ofMembers_map (h : WrittenAlike key write normal) (xs : List α) :
    Json.ofMembers (entryMembers key write (xs.map normal))
      = Json.ofMembers (entryMembers key write xs) := by
  rw [h.entryMembers_map]

/-- **The normal form of a section is written like the section.** -/
theorem WrittenAlike.ofMembers_normalEntries (h : WrittenAlike key write normal) (xs : List α) :
    Json.ofMembers (entryMembers key write (normalEntries key normal xs))
      = Json.ofMembers (entryMembers key write xs) := by
  unfold normalEntries
  -- Collapsing twice is collapsing once, and the object collapses anyway.
  rw [h.ofMembers_map, ofMembers_entryMembers, ofMembers_entryMembers,
      collapse_of_nodup (nodup_keys_collapse xs)]

theorem isEmpty_normalEntries (xs : List α) :
    (normalEntries key normal xs).isEmpty = xs.isEmpty := by
  unfold normalEntries
  rw [List.isEmpty_map, isEmpty_collapse]

/-- Entries with distinct keys stay where they are. -/
theorem normalEntries_of_nodup {xs : List α} (h : (xs.map key).Nodup) :
    normalEntries key normal xs = xs.map normal := by
  unfold normalEntries
  rw [collapse_of_nodup h]

/-- A normal form is its own normal form. -/
theorem WrittenAlike.map_map_normal (h : WrittenAlike key write normal) (xs : List α) :
    (xs.map normal).map normal = xs.map normal := by
  rw [List.map_map]
  exact List.map_congr_left fun x _ => h.normal_normal x

/-- The normal form of a section is its own normal form. -/
theorem WrittenAlike.normalEntries_normalEntries (h : WrittenAlike key write normal)
    (xs : List α) :
    normalEntries key normal (normalEntries key normal xs) = normalEntries key normal xs := by
  have hn : ((normalEntries key normal xs).map key).Nodup := by
    unfold normalEntries
    rw [h.map_key_normal]
    exact nodup_keys_collapse xs
  rw [normalEntries_of_nodup hn]
  unfold normalEntries
  exact h.map_map_normal (collapse key xs)

end

/-! ## §3. Entries. -/

/-- A path entry without an empty default bundle. -/
def PathEntry.normal (p : PathEntry) : PathEntry :=
  { p with defaultBundle := nonEmpty? p.defaultBundle }

/-- A shim without an empty exported name. -/
def Shim.normal (s : Shim) : Shim :=
  { s with exported := nonEmpty? s.exported }

/-- Redirected dependencies, each asked for once. -/
def Remap.normal (r : Remap) : Remap :=
  { r with replacements := collapse Replacement.old r.replacements }

theorem nonEmpty?_nonEmpty? (s : Option String) : nonEmpty? (nonEmpty? s) = nonEmpty? s := by
  unfold nonEmpty?
  rw [Option.filter_filter]
  simp only [Bool.and_self]

/-- The sections only differ in their keys, in how an entry is written, and in its normal
form. -/
theorem pathEntry_writtenAlike : WrittenAlike PathEntry.key PathEntry.toJson PathEntry.normal where
  key_normal _ := rfl
  write_normal p := by
    unfold PathEntry.toJson PathEntry.normal
    rw [nonEmpty?_nonEmpty?]
  normal_normal p := by
    unfold PathEntry.normal
    rw [nonEmpty?_nonEmpty?]

theorem shim_writtenAlike : WrittenAlike Shim.forModule Shim.toJson Shim.normal where
  key_normal _ := rfl
  write_normal s := by
    unfold Shim.toJson Shim.normal
    rw [nonEmpty?_nonEmpty?]
  normal_normal s := by
    unfold Shim.normal
    rw [nonEmpty?_nonEmpty?]

/-- The replacements of a module are written like a section, each old name once. -/
theorem remap_toJson_eq (r : Remap) :
    r.toJson = .object (entryMembers Replacement.old (fun x => .string x.new)
      (collapse Replacement.old r.replacements)) :=
  ofMembers_entryMembers r.replacements

/-- Without a repeated id, there is nothing to collapse. -/
theorem Remap.normal_of_nodup {r : Remap} (h : (r.replacements.map Replacement.old).Nodup) :
    r.normal = r := by
  unfold Remap.normal
  rw [collapse_of_nodup h]

theorem remap_writtenAlike : WrittenAlike Remap.forModule Remap.toJson Remap.normal where
  key_normal _ := rfl
  write_normal r := by
    have hnodup : (r.normal.replacements.map Replacement.old).Nodup :=
      nodup_keys_collapse r.replacements
    rw [remap_toJson_eq, remap_toJson_eq, collapse_of_nodup hnodup]
    rfl
  normal_normal r := Remap.normal_of_nodup (nodup_keys_collapse r.replacements)

theorem bundle_writtenAlike :
    WrittenAlike Bundle.bundleId (fun b => textList b.modules) id where
  key_normal _ := rfl
  write_normal _ := rfl
  normal_normal _ := rfl

/-! ## §4. Collections. -/

/-- An override with its sections in normal form. -/
def Override.normal (o : Override) : Override :=
  { o with
    paths := normalEntries PathEntry.key PathEntry.normal o.paths
    shims := normalEntries Shim.forModule Shim.normal o.shims
    remaps := normalEntries Remap.forModule Remap.normal o.remaps }

/-- What a document with the given name shows of a collection. -/
def Collection.normal (name : String) (c : Collection) : Collection where
  source := some name
  paths := normalEntries PathEntry.key PathEntry.normal c.paths
  bundlePaths := normalEntries PathEntry.key PathEntry.normal c.bundlePaths
  shims := normalEntries Shim.forModule Shim.normal c.shims
  remaps := normalEntries Remap.forModule Remap.normal c.remaps
  bundles := normalEntries Bundle.bundleId id c.bundles
  overrides := (c.overrides.filter Override.isNamed).map Override.normal

theorem pathsJson_normal (ps : List PathEntry) :
    pathsJson (normalEntries PathEntry.key PathEntry.normal ps) = pathsJson ps :=
  pathEntry_writtenAlike.ofMembers_normalEntries ps

theorem shimsJson_normal (ss : List Shim) :
    shimsJson (normalEntries Shim.forModule Shim.normal ss) = shimsJson ss :=
  shim_writtenAlike.ofMembers_normalEntries ss

theorem remapsJson_normal (rs : List Remap) :
    remapsJson (normalEntries Remap.forModule Remap.normal rs) = remapsJson rs :=
  remap_writtenAlike.ofMembers_normalEntries rs

theorem bundlesJson_normal (bs : List Bundle) :
    bundlesJson (normalEntries Bundle.bundleId id bs) = bundlesJson bs :=
  bundle_writtenAlike.ofMembers_normalEntries bs

/-- An override and its normal form are written alike. -/
theorem Override.toJson_normal (o : Override) : o.normal.toJson = o.toJson := by
  unfold Override.toJson Override.normal
  simp only [isEmpty_normalEntries, pathsJson_normal, shimsJson_normal, remapsJson_normal]

/-- The normal form of an override is its own normal form. -/
theorem Override.normal_normal (o : Override) : o.normal.normal = o.normal := by
  unfold Override.normal
  rw [pathEntry_writtenAlike.normalEntries_normalEntries,
      shim_writtenAlike.normalEntries_normalEntries, remap_writtenAlike.normalEntries_normalEntries]

/-- **A normal form is written like its collection**, but for the overrides without
a bundle id. -/
theorem Collection.toJson_normal (c : Collection) (name : String) :
    (c.normal name).toJson
      = Collection.toJson { c with overrides := c.overrides.filter Override.isNamed } := by
  have hoverrides : ∀ os : List Override,
      (os.map Override.normal).map Override.toJson = os.map Override.toJson := by
    intro os
    rw [List.map_map]
    exact List.map_congr_left fun o _ => o.toJson_normal
  unfold Collection.toJson Collection.normal
  simp only [isEmpty_normalEntries, pathsJson_normal, shimsJson_normal, remapsJson_normal,
    bundlesJson_normal, List.isEmpty_map, hoverrides]

end AmdKit.Loader
