/-
  AmdKit.Proofs.MergedEntries
  ────────────────────────────────
  **WHAT A MERGED SECTION HOLDS UNDER A KEY.**

  A merged section has at most one entry for a key.  It is made of all entries
  with that key, in the order of the collections, and of nothing else:

      find? k (upsertAll xs [])  =  joined (those of xs with the key k)

  For a shim this means the exported name of the last one, and the dependencies
  of all of them in a row, each kept where it stands last:

      exported      — as the last entry says, also if it says none
      dependencies  — (all of them).dedup

  It makes no difference that repeated dependencies are dropped as each entry is
  stored: dropping them once, after everything is stored, gives the same.

  For redirected dependencies it means the replacements of all elements in a row,
  and of those for one id the one that is given last, where it is given.
-/
import Mathlib.Data.List.Dedup
import AmdKit.Proofs.MergedSections

namespace AmdKit.Keyed

/-! ## §1. The first and the last of each key. -/

variable {α κ : Type} [DecidableEq κ] {key : α → κ}

/-- Among plain values, the first of each is what is left when later ones are erased. -/
theorem keepFirst_eq_eraseDups (ks : List κ) : keepFirst id ks = ks.eraseDups := by
  induction ks using List.reverseRecOn with
  | nil => rfl
  | append_singleton ks k ih => rw [keepFirst_concat, eraseDups_concat, ih, List.map_id, id_eq]

/-- Among plain values, the last of each is what is left without duplicates. -/
theorem keepLast_eq_dedup (ks : List κ) : keepLast id ks = ks.dedup := by
  induction ks with
  | nil => rfl
  | cons k ks ih =>
      rw [keepLast, List.map_id, id_eq]
      by_cases hk : k ∈ ks
      · rw [if_pos hk, ih, List.dedup_cons_of_mem hk]
      · rw [if_neg hk, ih, List.dedup_cons_of_notMem hk]

/-- `kept` holds one entry of `all` for each key: the last one that has it.  The
entries that are kept stand in the order in which they stand in `all`. -/
structure LastOfEach (key : α → κ) (all kept : List α) : Prop where
  once : (kept.map key).Nodup
  complete : ∀ k, k ∈ kept.map key ↔ k ∈ all.map key
  last : ∀ x ∈ kept, ∃ front back, all = front ++ x :: back ∧ key x ∉ back.map key
  ordered : kept.Pairwise fun x y => ∃ front middle back, all = front ++ x :: middle ++ y :: back
    ∧ key x ∉ (middle ++ y :: back).map key ∧ key y ∉ back.map key

theorem exists_split_of_mem_keepLast {xs : List α} {x : α} (hx : x ∈ keepLast key xs) :
    ∃ front back, xs = front ++ x :: back ∧ key x ∉ back.map key := by
  induction xs with
  | nil => exact absurd hx List.not_mem_nil
  | cons y ys ih =>
      have hlater : x ∈ keepLast key ys →
          ∃ front back, y :: ys = front ++ x :: back ∧ key x ∉ back.map key := by
        intro h
        obtain ⟨front, back, hsplit, hback⟩ := ih h
        exact ⟨y :: front, back, by rw [hsplit, List.cons_append], hback⟩
      unfold keepLast at hx
      by_cases hy : key y ∈ ys.map key
      · rw [if_pos hy] at hx
        exact hlater hx
      · rw [if_neg hy] at hx
        rcases List.mem_cons.mp hx with rfl | hx
        · exact ⟨[], ys, rfl, hy⟩
        · exact hlater hx

theorem keepLast_ordered (xs : List α) :
    (keepLast key xs).Pairwise fun x y => ∃ front middle back,
      xs = front ++ x :: middle ++ y :: back
        ∧ key x ∉ (middle ++ y :: back).map key ∧ key y ∉ back.map key := by
  induction xs with
  | nil => exact List.Pairwise.nil
  | cons z zs ih =>
      -- What stands in order in `zs` stands in order behind `z`.
      have hbehind := ih.imp (S := fun x y => ∃ front middle back,
          z :: zs = front ++ x :: middle ++ y :: back
            ∧ key x ∉ (middle ++ y :: back).map key ∧ key y ∉ back.map key) (by
        rintro x y ⟨front, middle, back, hsplit, hx, hy⟩
        exact ⟨z :: front, middle, back, by rw [hsplit]; rfl, hx, hy⟩)
      unfold keepLast
      by_cases hz : key z ∈ zs.map key
      · rw [if_pos hz]
        exact hbehind
      · rw [if_neg hz, List.pairwise_cons]
        refine ⟨fun y hy => ?_, hbehind⟩
        obtain ⟨middle, back, hsplit, hback⟩ := exists_split_of_mem_keepLast hy
        exact ⟨[], middle, back, by rw [hsplit]; rfl, hsplit ▸ hz, hback⟩

theorem keepLast_lastOfEach (xs : List α) : LastOfEach key xs (keepLast key xs) where
  once := nodup_keys_keepLast xs
  complete _ := mem_keys_keepLast
  last _ hx := exists_split_of_mem_keepLast hx
  ordered := keepLast_ordered xs

end AmdKit.Keyed

namespace AmdKit.Loader

open Keyed

/-! ## §2. Shims. -/

/-- A later shim for the same script, its dependencies behind the earlier ones. -/
def Shim.append (old new : Shim) : Shim :=
  ⟨old.forModule, new.exported, old.dependencies ++ new.dependencies⟩

theorem shim_append_associative : Associative Shim.forModule Shim.append where
  key_combine _ _ _ := rfl
  assoc a b c := by
    unfold Shim.append
    rw [List.append_assoc]

/-- **Dropping repeated dependencies at every step is dropping them once at the
end.** -/
theorem mergeShims_eq_map_distinct (entries : List Shim) :
    mergeShims entries
      = (upsertAll Shim.forModule Shim.append entries []).map Shim.distinct := by
  have hkey : ∀ s : Shim, s.distinct.forModule = s.forModule := fun _ => rfl
  have happend : ∀ a b : Shim, (a.append b).distinct = a.distinct.combine b.distinct := by
    intro a b
    unfold Shim.combine Shim.append Shim.distinct
    rw [keepLast_absorbs.both]
  exact (map_upsertAll hkey happend entries []).symm

theorem foldl_append_shim (s : Shim) (ss : List Shim) :
    ss.foldl Shim.append s
      = ⟨s.forModule, (ss.getLast?.getD s).exported,
          s.dependencies ++ ss.flatMap Shim.dependencies⟩ := by
  induction ss generalizing s with
  | nil =>
      rw [List.flatMap_nil, List.append_nil]
      rfl
  | cons t ss ih =>
      -- Whichever shim is the last, it is not `s`: the one behind it takes over.
      have hlast : (ss.getLast?.getD (s.append t)).exported
          = ((t :: ss).getLast?.getD s).exported := by
        rw [List.getLast?_cons]
        cases ss.getLast? with
        | none => rfl
        | some last => rfl
      rw [List.foldl_cons, ih, hlast, List.flatMap_cons, ← List.append_assoc]
      rfl

/-- Shims for one script combine to the last name and all dependencies. -/
theorem joined_shims {m : String} {ss : List Shim} (hm : ∀ s ∈ ss, s.forModule = m) :
    joined Shim.append ss
      = ss.getLast?.map fun last =>
          ⟨m, last.exported, ss.flatMap Shim.dependencies⟩ := by
  cases ss with
  | nil => rfl
  | cons s ss =>
      have hs : s.forModule = m := hm s List.mem_cons_self
      show some (ss.foldl Shim.append s) = _
      rw [foldl_append_shim, hs, List.getLast?_cons, List.flatMap_cons]
      rfl

/-- **The shim of a script in a merged collection.**  Dropping repeated
dependencies as each entry is stored gives the section that dropping them once
at the end gives.  A script that no collection has a shim for has none; any
other script has the exported name of its last entry, which may be none, and
the dependencies of all its entries in a row, each where it stands last. -/
theorem shim?_merge (options : MergeOptions) (cs : List Collection) :
    (merge options cs).collection.shims
      = (upsertAll Shim.forModule Shim.append (cs.flatMap Collection.shims) []).map
          Shim.distinct
    ∧ ∀ m : String,
      let entries := (cs.flatMap Collection.shims).filter fun s => s.forModule = m
      (merge options cs).collection.shim? m
        = entries.getLast?.map fun last =>
            ⟨m, last.exported, (entries.flatMap Shim.dependencies).dedup⟩ := by
  have hshims := mergeShims_eq_map_distinct (cs.flatMap Collection.shims)
  rw [merge_eq_mergeSectionwise]
  refine ⟨hshims, fun m => ?_⟩
  intro entries
  have hentries : ∀ s ∈ entries, s.forModule = m := by
    intro s hs
    simpa using (List.mem_filter.mp hs).2
  have hkey : ∀ s : Shim, s.distinct.forModule = s.forModule := fun _ => rfl
  show find? Shim.forModule m (mergeShims _) = _
  rw [hshims, find?_map hkey, find?_upsertAll shim_append_associative]
  show (joined Shim.append entries).map Shim.distinct = _
  rw [joined_shims hentries, Option.map_map, ← keepLast_eq_dedup]
  rfl

/-- A later entry without a name takes the earlier one's away, and moves `x` behind `y`. -/
example : (merge {} [{ shims := [⟨"mod", some "Mod", ["x", "y"]⟩] },
    { shims := [⟨"mod", none, ["x"]⟩] }]).collection.shim? "mod"
      = some ⟨"mod", none, ["y", "x"]⟩ := by
  decide

/-! ## §3. Redirected dependencies. -/

/-- A later element for the same consumer, its replacements behind the earlier ones. -/
def Remap.append (old new : Remap) : Remap :=
  ⟨old.forModule, old.replacements ++ new.replacements⟩

theorem remap_append_associative : Associative Remap.forModule Remap.append where
  key_combine _ _ _ := rfl
  assoc a b c := by
    unfold Remap.append
    rw [List.append_assoc]

/-- **Dropping replaced replacements at every step is dropping them once at the
end.** -/
theorem mergeRemaps_eq_map_distinct (entries : List Remap) :
    mergeRemaps entries
      = (upsertAll Remap.forModule Remap.append entries []).map Remap.distinct := by
  have hkey : ∀ r : Remap, r.distinct.forModule = r.forModule := fun _ => rfl
  have happend : ∀ a b : Remap, (a.append b).distinct = a.distinct.combine b.distinct := by
    intro a b
    unfold Remap.combine Remap.append Remap.distinct
    rw [keepLast_absorbs.both]
  exact (map_upsertAll hkey happend entries []).symm

/-- Elements for one consumer combine to all of their replacements. -/
theorem joined_remaps {m : String} {rs : List Remap} (hm : ∀ r ∈ rs, r.forModule = m)
    (hne : rs ≠ []) :
    joined Remap.append rs = some ⟨m, rs.flatMap Remap.replacements⟩ := by
  have hmodule : ∀ a b : Remap, (a.append b).forModule = a.forModule := fun _ _ => rfl
  have hitems : ∀ a b : Remap, (a.append b).replacements = a.replacements ++ b.replacements :=
    fun _ _ => rfl
  obtain ⟨r, hjoined, hr, hreplacements⟩ := exists_joined hmodule hitems hm hne
  rw [hjoined, ← hr, ← hreplacements]

/-- **The redirected dependencies of a consumer in a merged collection.**  A
consumer that no collection has an element for has none.  For any other consumer
take the replacements of all its elements in a row.  Each id that one of them
replaces has exactly one replacement, the last that is given for it, and the
replacements stand in the order in which these are given. -/
theorem remap?_merge (options : MergeOptions) (cs : List Collection) (m : String) :
    let entries := (cs.flatMap Collection.remaps).filter fun r => r.forModule = m
    (entries = [] → (merge options cs).collection.remap? m = none)
    ∧ (entries ≠ [] → ∃ replacements,
        (merge options cs).collection.remap? m = some ⟨m, replacements⟩
          ∧ LastOfEach Replacement.old (entries.flatMap Remap.replacements) replacements) := by
  intro entries
  have hentries : ∀ r ∈ entries, r.forModule = m := by
    intro r hr
    simpa using (List.mem_filter.mp hr).2
  have hkey : ∀ r : Remap, r.distinct.forModule = r.forModule := fun _ => rfl
  -- Only the entries of this module count, and repetitions are dropped from what they add up to.
  have hfind : (merge options cs).collection.remap? m
      = (joined Remap.append entries).map Remap.distinct := by
    rw [merge_eq_mergeSectionwise]
    show find? Remap.forModule m (mergeRemaps _) = _
    rw [mergeRemaps_eq_map_distinct, find?_map hkey, find?_upsertAll remap_append_associative]
  constructor
  · intro hnil
    rw [hfind, hnil]
    rfl
  · intro hne
    rw [hfind, joined_remaps hentries hne]
    exact ⟨_, rfl, keepLast_lastOfEach (entries.flatMap Remap.replacements)⟩

/-- The later replacement of `a` wins, and moves behind that of `b`. -/
example : (merge {} [{ remaps := [⟨"app", [⟨"a", "a1"⟩, ⟨"b", "b1"⟩]⟩] },
    { remaps := [⟨"app", [⟨"a", "a2"⟩]⟩] }]).collection.remap? "app"
      = some ⟨"app", [⟨"b", "b1"⟩, ⟨"a", "a2"⟩]⟩ := by
  decide

end AmdKit.Loader
