/-
  AmdKit.Proofs.Rereading
  ────────────────────────────────
  **A DOCUMENT READ BACK.**

  A collection that is written and read again comes back in normal form, from
  the text without blanks as well as from the one with an entry on each line:

      parse (render c.toJson) name  =  c.normal name, with c.dropped name

  Each section has a reader that answers its writer; a reader is said to be
  `ReadsNormal` if it takes every written entry, without a note, for the normal
  form of the entry.  Nothing is noted but the overrides without a bundle id,
  one warning for each.
-/
import AmdKit.Loader.Reader
import AmdKit.Proofs.NormalForm

namespace AmdKit.Loader

open Keyed
open Json (Members)

/-! ## §1. Notes. -/

namespace Noted

variable {α β γ : Type}

theorem plain_bind (x : α) (f : α → Noted β) : (plain x >>= f) = f x := rfl

/-- Entries that are all read without a note. -/
theorem collect_map {read : β → Noted (Option γ)} {write : α → β} {result : α → γ}
    (h : ∀ x, read (write x) = plain (some (result x))) (xs : List α) :
    collect read (xs.map write) = plain (xs.map result) := by
  induction xs with
  | nil => rfl
  | cons x xs ih =>
      rw [List.map_cons, collect, ih, h]
      rfl

/-- Entries of which some are left out with a note. -/
theorem collect_map_of_ite {read : β → Noted (Option γ)} {write : α → β} {keep : α → Bool}
    {result : α → γ} {part : α → Section} {reason : Reason}
    (h : ∀ x, read (write x)
      = if keep x then plain (some (result x)) else skipped none (part x) reason)
    (xs : List α) :
    collect read (xs.map write) = ⟨(xs.filter keep).map result,
      (xs.filter fun x => !keep x).map fun x => ⟨part x, reason⟩⟩ := by
  induction xs with
  | nil => rfl
  | cons x xs ih =>
      rw [List.map_cons, collect, ih, h]
      cases hk : keep x with
      | true => simp [hk, plain]
      | false => simp [hk, skipped]

end Noted

/-! ## §2. Members. -/

theorem get?_nil (wanted : String) : Members.get? [] wanted = none := rfl

theorem get?_cons (name : String) (value : Json) (rest : Members) (wanted : String) :
    Members.get? ((name, value) :: rest) wanted
      = if name = wanted then some value else Members.get? rest wanted := by
  unfold Members.get?
  rw [find?_cons]
  by_cases hn : name = wanted
  · rw [if_pos hn, if_pos hn]
    rfl
  · rw [if_neg hn, if_neg hn]

/-- A member that may be present, in front of others. -/
theorem get?_memberIf_append (present : Bool) (name : String) (value : Json) (rest : Members)
    (wanted : String) :
    Members.get? (memberIf present name value ++ rest) wanted
      = if present ∧ name = wanted then some value else Members.get? rest wanted := by
  unfold memberIf
  cases present with
  | false => simp
  | true => simp [get?_cons]

/-- A member that may be present, on its own. -/
theorem get?_memberIf (present : Bool) (name : String) (value : Json) (wanted : String) :
    Members.get? (memberIf present name value) wanted
      = if present ∧ name = wanted then some value else none := by
  have happend := get?_memberIf_append present name value [] wanted
  rwa [List.append_nil, get?_nil] at happend

/-! ## §3. Entries. -/

/-- Strings are read as they have been written. -/
theorem readStrings_textList (part : Section) (ss : List String) :
    readStrings part (some (textList ss)) = .plain ss := by
  have hread : readStrings part (some (textList ss)) = .plain (ss.map id) :=
    Noted.collect_map (fun _ => by rfl) ss
  rw [hread, List.map_id]

/-- A list of strings that is written only if it has any. -/
theorem readStrings_ifAny (part : Section) (ss : List String) :
    readStrings part (if !ss.isEmpty then some (textList ss) else none) = .plain ss := by
  cases ss with
  | nil => rfl
  | cons s ss => exact readStrings_textList part (s :: ss)

/-- Every written entry is read, without a note, as its normal form. -/
def ReadsNormal {α : Type} (key : α → String) (write : α → Json) (normal : α → α)
    (read : Section → String → Json → Noted (Option α)) : Prop :=
  ∀ part x, read part (key x) (write x) = .plain (some (normal x))

section

variable {α : Type} {key : α → String} {write : α → Json} {normal : α → α}
  {read : Section → String → Json → Noted (Option α)}

/-- **A written section is read as its normal form.** -/
theorem ReadsNormal.section_eq (h : ReadsNormal key write normal read) (part : Section)
    (xs : List α) :
    readEntries part (some (Json.ofMembers (entryMembers key write xs))) read
      = .plain (normalEntries key normal xs) := by
  -- The object is collapsed by the writer, and the reader takes it member by member.
  rw [ofMembers_entryMembers]
  show Noted.collect _ _ = _
  unfold entryMembers normalEntries
  exact Noted.collect_map (fun x => h _ x) _

/-- A section that is written only if it has entries. -/
theorem ReadsNormal.section_ifAny (h : ReadsNormal key write normal read) (part : Section)
    (xs : List α) :
    readEntries part
        (if !xs.isEmpty then some (Json.ofMembers (entryMembers key write xs)) else none) read
      = .plain (normalEntries key normal xs) := by
  cases xs with
  | nil => rfl
  | cons x xs => exact h.section_eq part (x :: xs)

end

/-- For each section, an entry is read from what was written of it: up to its normal form.
-/
theorem pathEntry_readsNormal :
    ReadsNormal PathEntry.key PathEntry.toJson PathEntry.normal readPath := by
  intro part p
  unfold PathEntry.toJson PathEntry.normal
  cases nonEmpty? p.defaultBundle with
  | none => rfl
  | some bundle => rfl

theorem shim_readsNormal : ReadsNormal Shim.forModule Shim.toJson Shim.normal readShim := by
  intro part s
  have hdeps := readStrings_ifAny (part ++ [.member "deps"]) s.dependencies
  unfold Shim.toJson Shim.normal readShim
  rw [readObject, Noted.plain_bind]
  cases nonEmpty? s.exported with
  | none =>
      simp only [Option.toList, List.map_nil, List.append_nil, get?_memberIf, String.reduceEq,
        and_true, and_false, if_false]
      rw [readExported, Noted.plain_bind, hdeps, Noted.plain_bind]
      rfl
  | some name =>
      simp only [Option.toList, List.map_cons, List.map_nil, get?_memberIf_append, get?_cons,
        get?_nil, String.reduceEq, and_true, and_false, if_false, if_true]
      rw [readExported, Noted.plain_bind, hdeps, Noted.plain_bind]
      rfl

/-- A replacement is its own normal form. -/
theorem replacement_readsNormal :
    ReadsNormal Replacement.old (fun x => .string x.new) id readReplacement :=
  fun _ _ => rfl

theorem remap_readsNormal : ReadsNormal Remap.forModule Remap.toJson Remap.normal readRemap := by
  intro part r
  have hread := replacement_readsNormal.section_eq part r.replacements
  have hid : normalEntries Replacement.old id r.replacements = r.normal.replacements :=
    List.map_id _
  rw [ofMembers_entryMembers, hid] at hread
  rw [remap_toJson_eq]
  unfold readRemap
  rw [readObject, Noted.plain_bind]
  simp only [hread, Noted.plain_bind]
  rfl

theorem bundle_readsNormal :
    ReadsNormal Bundle.bundleId (fun b => textList b.modules) id readBundle := by
  intro part b
  unfold readBundle
  rw [readStrings_textList]
  rfl

/-! ## §4. Sections. -/

/-- For each section, a section that is written only if it has entries is read as its
normal form. -/
theorem readPaths_ifAny (part : Section) (ps : List PathEntry) :
    readPaths part (if !ps.isEmpty then some (pathsJson ps) else none)
      = .plain (normalEntries PathEntry.key PathEntry.normal ps) :=
  pathEntry_readsNormal.section_ifAny part ps

theorem readShims_ifAny (part : Section) (ss : List Shim) :
    readShims part (if !ss.isEmpty then some (shimsJson ss) else none)
      = .plain (normalEntries Shim.forModule Shim.normal ss) :=
  shim_readsNormal.section_ifAny part ss

theorem readRemaps_ifAny (part : Section) (rs : List Remap) :
    readRemaps part (if !rs.isEmpty then some (remapsJson rs) else none)
      = .plain (normalEntries Remap.forModule Remap.normal rs) :=
  remap_readsNormal.section_ifAny part rs

theorem readBundles_ifAny (part : Section) (bs : List Bundle) :
    readBundles part (if !bs.isEmpty then some (bundlesJson bs) else none)
      = .plain (normalEntries Bundle.bundleId id bs) :=
  bundle_readsNormal.section_ifAny part bs

/-- An override is read as its normal form, unless it has no name: then it is left out,
with a note. -/
theorem readOverride_toJson (part : Section) (o : Override) :
    readOverride part none o.toJson
      = if o.isNamed then .plain (some o.normal) else .skipped none part .missingBundleId := by
  have hid : overrideId? none [("bundleId", .string o.bundleId)]
      = if o.isNamed then some o.bundleId else none := rfl
  unfold Override.toJson readOverride
  rw [readObject, Noted.plain_bind]
  simp only [overrideId?, List.append_assoc, get?_memberIf_append, get?_cons, get?_nil,
    String.reduceEq, and_true, and_false, if_false, if_true] at hid ⊢
  -- Without an id the reader does not look into the sections, so they leave no notes.
  rw [hid]
  by_cases hnamed : o.isNamed = true
  · rw [if_pos hnamed, if_pos hnamed]
    show (readPaths _ _ >>= _) = _
    rw [readPaths_ifAny, Noted.plain_bind, readShims_ifAny, Noted.plain_bind, readRemaps_ifAny,
        Noted.plain_bind, readStrings_textList, Noted.plain_bind]
    rfl
  · rw [if_neg hnamed, if_neg hnamed]

/-- The overrides without a bundle id, each with its index. -/
def unnamed (os : List Override) : List (Override × Nat) :=
  os.zipIdx.filter fun e => !e.1.isNamed

/-- Overrides that are named are read in their order, and the others leave a note each. -/
theorem readOverrides_array (part : Section) (os : List Override) :
    readOverrides part (some (.array (os.map Override.toJson)))
      = ⟨(os.filter Override.isNamed).map Override.normal,
        (unnamed os).map fun e => ⟨part ++ [.item e.2], .missingBundleId⟩⟩ := by
  have hindex : (os.map Override.toJson).zipIdx = os.zipIdx.map (Prod.map Override.toJson id) :=
    List.zipIdx_map ..
  have hkept : (os.zipIdx.filter fun e => e.1.isNamed).map (fun e => e.1.normal)
      = (os.filter Override.isNamed).map Override.normal := by
    -- Only the notes need the index: without it, the filter is that of the list.
    have hfilter : os.filter Override.isNamed
        = (os.zipIdx.filter fun e => e.1.isNamed).map Prod.fst := by
      conv_lhs => rw [← List.zipIdx_map_fst 0 os]
      rw [List.filter_map]
      rfl
    rw [hfilter, List.map_map]
    rfl
  have hread : readOverrides part (some (.array (os.map Override.toJson)))
      = ⟨(os.zipIdx.filter fun e => e.1.isNamed).map fun e => e.1.normal,
        (unnamed os).map fun e => ⟨part ++ [.item e.2], .missingBundleId⟩⟩ := by
    show Noted.collect _ (os.map Override.toJson).zipIdx = _
    rw [hindex]
    exact Noted.collect_map_of_ite (fun e => readOverride_toJson (part ++ [.item e.2]) e.1)
      os.zipIdx
  rw [hread, hkept]

/-- No overrides are written as no member at all. -/
theorem readOverrides_ifAny (part : Section) (os : List Override) :
    readOverrides part (if !os.isEmpty then some (.array (os.map Override.toJson)) else none)
      = ⟨(os.filter Override.isNamed).map Override.normal,
        (unnamed os).map fun e => ⟨part ++ [.item e.2], .missingBundleId⟩⟩ := by
  cases os with
  | nil => rfl
  | cons o os => exact readOverrides_array part (o :: os)

/-! ## §5. Documents. -/

/-- The members of the document of a collection. -/
def Collection.members (c : Collection) : Members :=
  memberIf (!c.paths.isEmpty) "paths" (pathsJson c.paths)
    ++ memberIf (!c.bundlePaths.isEmpty) "bundlePaths" (pathsJson c.bundlePaths)
    ++ memberIf (!c.shims.isEmpty) "shim" (shimsJson c.shims)
    ++ memberIf (!c.remaps.isEmpty) "map" (remapsJson c.remaps)
    ++ memberIf (!c.bundles.isEmpty) "bundles" (bundlesJson c.bundles)
    ++ memberIf (!c.overrides.isEmpty) "overrides" (.array (c.overrides.map Override.toJson))

/-- A document is read as the normal form of the collection, with a note for each override
without a name. -/
theorem readDocument_members (name : String) (c : Collection) :
    readDocument name c.members = ⟨c.normal name, (unnamed c.overrides).map
      fun e => ⟨[.member "overrides", .item e.2], .missingBundleId⟩⟩ := by
  unfold Collection.members readDocument
  simp only [List.append_assoc, get?_memberIf_append, get?_memberIf, String.reduceEq, and_true,
    and_false, if_false]
  -- Five sections are plain, so all notes are those of the last one.
  rw [readPaths_ifAny, Noted.plain_bind, readPaths_ifAny, Noted.plain_bind, readShims_ifAny,
      Noted.plain_bind, readRemaps_ifAny, Noted.plain_bind, readBundles_ifAny, Noted.plain_bind,
      readOverrides_ifAny]
  show Noted.andThen _ _ = _
  unfold Noted.andThen
  simp only [pure, Noted.plain, List.append_nil, Collection.normal, List.singleton_append]

/-! ## §6. Every document can be read. -/

/-- A member that may be present has at most its own name. -/
theorem sublist_memberIf (present : Bool) (name : String) (value : Json) :
    ((memberIf present name value).map Prod.fst).Sublist [name] := by
  cases present with
  | false => exact List.nil_sublist _
  | true => exact List.Sublist.refl _

theorem forall_memberIf {P : Json → Prop} {value : Json} (h : P value) (present : Bool)
    (name : String) : ∀ m ∈ memberIf present name value, P m.2 := by
  intro m hm
  cases present with
  | false => exact absurd hm List.not_mem_nil
  | true => exact List.mem_singleton.mp hm ▸ h

theorem within_textList (n : Nat) (ss : List String) : (textList ss).Within (n + 1) := by
  refine .array fun x hx => ?_
  obtain ⟨s, -, rfl⟩ := List.mem_map.mp hx
  exact .string n s

/-- A section is nested one level deeper than its entries. -/
theorem within_ofMembers {α : Type} {key : α → String} {write : α → Json} {n : Nat}
    (h : ∀ x, (write x).Within n) (xs : List α) :
    (Json.ofMembers (entryMembers key write xs)).Within (n + 1) := by
  rw [ofMembers_entryMembers]
  refine .object ?names fun m hm => ?_
  case names =>
    rw [names_entryMembers]
    exact nodup_keys_collapse xs
  obtain ⟨x, -, rfl⟩ := List.mem_map.mp hm
  exact h x

theorem PathEntry.within_toJson (n : Nat) (p : PathEntry) : p.toJson.Within (n + 1) := by
  unfold PathEntry.toJson
  cases nonEmpty? p.defaultBundle with
  | none => exact .string _ _
  | some bundle =>
      have hnames : ["path", "defaultBundle"].Nodup := by decide
      refine .object hnames fun m hm => ?_
      rcases List.mem_cons.mp hm with rfl | hm
      · exact .string _ _
      · exact List.mem_singleton.mp hm ▸ .string _ _

theorem Shim.within_toJson (n : Nat) (s : Shim) : s.toJson.Within (n + 2) := by
  have hnames : ["deps", "exports"].Nodup := by decide
  have hexported : (((nonEmpty? s.exported).toList.map
      fun name => ("exports", Json.string name)).map Prod.fst).Sublist ["exports"] := by
    cases nonEmpty? s.exported with
    | none => exact List.nil_sublist _
    | some name => exact List.Sublist.refl _
  unfold Shim.toJson
  refine .object ?names fun m hm => ?_
  case names =>
    rw [List.map_append]
    exact ((sublist_memberIf _ _ _).append hexported).nodup hnames
  rcases List.mem_append.mp hm with hm | hm
  · exact forall_memberIf (within_textList n s.dependencies) _ _ m hm
  · obtain ⟨name, -, rfl⟩ := List.mem_map.mp hm
    exact .string _ name

theorem Remap.within_toJson (n : Nat) (r : Remap) : r.toJson.Within (n + 1) := by
  show (Json.ofMembers (entryMembers Replacement.old (fun x => .string x.new) _)).Within (n + 1)
  exact within_ofMembers (fun x => .string n x.new) r.replacements

theorem within_pathsJson (n : Nat) (ps : List PathEntry) : (pathsJson ps).Within (n + 2) :=
  within_ofMembers (PathEntry.within_toJson n) ps

theorem within_shimsJson (n : Nat) (ss : List Shim) : (shimsJson ss).Within (n + 3) :=
  within_ofMembers (Shim.within_toJson n) ss

theorem within_remapsJson (n : Nat) (rs : List Remap) : (remapsJson rs).Within (n + 2) :=
  within_ofMembers (Remap.within_toJson n) rs

theorem within_bundlesJson (n : Nat) (bs : List Bundle) : (bundlesJson bs).Within (n + 2) := by
  show (Json.ofMembers (entryMembers Bundle.bundleId (fun b => textList b.modules) _)).Within _
  exact within_ofMembers (fun b => within_textList n b.modules) bs

/-- An override is nested one level deeper than its sections. -/
theorem Override.within_toJson (n : Nat) (o : Override) : o.toJson.Within (n + 4) := by
  have hnames : ["bundleId", "paths", "shim", "map", "bundledScripts"].Nodup := by decide
  unfold Override.toJson
  refine .object ?names fun m hm => ?_
  case names =>
    refine List.Sublist.nodup ?_ hnames
    simp only [List.map_cons, List.map_append]
    exact .cons_cons _ ((((sublist_memberIf _ _ _).append (sublist_memberIf _ _ _)).append
      (sublist_memberIf _ _ _)).append (List.Sublist.refl _))
  simp only [List.mem_cons, List.mem_append, or_assoc] at hm
  rcases hm with rfl | hm | hm | hm | rfl | hm
  · exact .string _ _
  · exact forall_memberIf (within_pathsJson (n + 1) o.paths) _ _ m hm
  · exact forall_memberIf (within_shimsJson n o.shims) _ _ m hm
  · exact forall_memberIf (within_remapsJson (n + 1) o.remaps) _ _ m hm
  · exact within_textList (n + 2) o.scripts
  · exact absurd hm List.not_mem_nil

/-- Six brackets are open at most: those of the document, the list of overrides, an
override, a section, an entry and a list of strings. -/
theorem Collection.within_toJson (n : Nat) (c : Collection) : c.toJson.Within (n + 6) := by
  have hnames : ["paths", "bundlePaths", "shim", "map", "bundles", "overrides"].Nodup := by decide
  have hoverrides : (Json.array (c.overrides.map Override.toJson)).Within (n + 5) := by
    refine .array fun x hx => ?_
    obtain ⟨o, -, rfl⟩ := List.mem_map.mp hx
    exact o.within_toJson n
  show (Json.object c.members).Within (n + 6)
  unfold Collection.members
  refine .object ?names fun m hm => ?_
  -- Members that are left out leave the others in their order, so no name is there twice.
  case names =>
    refine List.Sublist.nodup ?_ hnames
    simp only [List.map_append]
    exact (((((sublist_memberIf _ _ _).append (sublist_memberIf _ _ _)).append
      (sublist_memberIf _ _ _)).append (sublist_memberIf _ _ _)).append
      (sublist_memberIf _ _ _)).append (sublist_memberIf _ _ _)
  simp only [List.mem_append, or_assoc] at hm
  rcases hm with hm | hm | hm | hm | hm | hm
  · exact forall_memberIf (within_pathsJson (n + 3) c.paths) _ _ m hm
  · exact forall_memberIf (within_pathsJson (n + 3) c.bundlePaths) _ _ m hm
  · exact forall_memberIf (within_shimsJson (n + 2) c.shims) _ _ m hm
  · exact forall_memberIf (within_remapsJson (n + 3) c.remaps) _ _ m hm
  · exact forall_memberIf (within_bundlesJson (n + 3) c.bundles) _ _ m hm
  · exact forall_memberIf hoverrides _ _ m hm

/-! ## §7. Collections. -/

/-- The warnings about the overrides that a document loses: one for each of them. -/
def Collection.dropped (name : String) (c : Collection) : List Warning :=
  (unnamed c.overrides).map
    fun e => ⟨name, ⟨[.member "overrides", .item e.2], .missingBundleId⟩⟩

/-- Any text that holds what is written is read as the normal form. -/
theorem parse_of_json {text name : String} {c : Collection}
    (h : Json.parse text = .ok c.toJson) :
    parse text name = .ok ⟨c.normal name, c.dropped name⟩ := by
  have hdocument : c.toJson = .object c.members := rfl
  unfold parse Collection.dropped
  rw [h, hdocument]
  simp only [readDocument_members]
  rw [List.map_map]
  rfl

/-- Both texts of a collection are read as its normal form. -/
theorem parse_texts (c : Collection) (name : String) :
    parse c.toJson.render name = .ok ⟨c.normal name, c.dropped name⟩
    ∧ parse c.toJson.renderPretty name = .ok ⟨c.normal name, c.dropped name⟩ := by
  obtain ⟨hrender, hpretty⟩ := Json.parse_render (c.within_toJson 121)
  exact ⟨parse_of_json hrender, parse_of_json hpretty⟩

/-- Where all overrides are named, none is left out. -/
theorem unnamed_eq_nil {os : List Override} (h : ∀ o ∈ os, o.isNamed) : unnamed os = [] := by
  unfold unnamed
  rw [List.filter_eq_nil_iff]
  intro e he
  rw [h e.1 (List.fst_mem_of_mem_zipIdx he)]
  decide

/-- The normal form is the same document if every override names a bundle. -/
theorem toJson_normal_of_named {c : Collection} (h : ∀ o ∈ c.overrides, o.isNamed)
    (name : String) : (c.normal name).toJson = c.toJson := by
  rw [c.toJson_normal, List.filter_eq_self.mpr h]

/-- **A written collection is read back in normal form.**  Both of its texts can be
read; each override without a bundle id is dropped with one warning, and there is
no other.  Without such an override, nothing changes when it is written again. -/
theorem parse_toJson (c : Collection) (name : String) :
    parse c.toJson.render name = .ok ⟨c.normal name, c.dropped name⟩
    ∧ parse c.toJson.renderPretty name = .ok ⟨c.normal name, c.dropped name⟩
    ∧ (c.dropped name).length = c.overrides.countP (fun o => !o.isNamed)
    ∧ ((∀ o ∈ c.overrides, o.isNamed) → (c.normal name).toJson = c.toJson) := by
  obtain ⟨hrender, hpretty⟩ := parse_texts c name
  refine ⟨hrender, hpretty, ?_, fun hnamed => toJson_normal_of_named hnamed name⟩
  -- The index does not count: the warnings are as many as the overrides they are about.
  have hindexed : c.overrides.countP (fun o => !o.isNamed)
      = (c.overrides.zipIdx.map Prod.fst).countP fun o => !o.isNamed := by
    rw [List.zipIdx_map_fst]
  unfold Collection.dropped unnamed
  rw [hindexed, List.countP_map, List.length_map, ← List.countP_eq_length_filter]
  rfl

/-- A key that repeats, an empty annotation and a named override. -/
theorem parse_toJson_repeated :
    let c : Collection := {
      paths := [⟨"a", "x.js", none⟩, ⟨"b", "b.js", some ""⟩, ⟨"a", "y.js", none⟩]
      overrides := [⟨"main", [], [], [], ["app.js"]⟩] }
    (∀ o ∈ c.overrides, o.isNamed)
    ∧ (c.normal "saved.json").paths = [⟨"a", "y.js", none⟩, ⟨"b", "b.js", none⟩]
    ∧ parse c.toJson.render "saved.json" = .ok ⟨c.normal "saved.json", []⟩
    ∧ (c.normal "saved.json").toJson = c.toJson := by
  intro c
  have hnamed : ∀ o ∈ c.overrides, o.isNamed := by decide +kernel
  obtain ⟨hparse, -, -, hjson⟩ := parse_toJson c "saved.json"
  exact ⟨hnamed, by decide, hparse, hjson hnamed⟩

end AmdKit.Loader
