/-
  AmdKit.Proofs.AcceptedCollections
  ────────────────────────────────
  **WHAT THE READER ACCEPTS.**

  A collection that was read has every key of a section once, in the sections
  nested in its overrides too, and every override names its bundle.  So when it
  is written and read again, nothing is collapsed and nothing is dropped, and
  the only loss is that of empty annotations, which are not written:

      parse (render c.toJson) name  =  c.pruned from name, without warnings

  `c.pruned` is `c` itself unless a default bundle or an exported name of it is
  the empty string.
-/
import AmdKit.Proofs.JsonSteps
import AmdKit.Proofs.Persistence

namespace AmdKit.Loader

open Keyed
open Json (Members)

/-! ## §1. Values of what is read. -/

namespace Noted

variable {α β : Type}

/-- What is read from entries is what is read from each of them, less those that are left
out. -/
theorem value_collect (read : α → Noted (Option β)) (xs : List α) :
    (collect read xs).value = xs.filterMap fun x => (read x).value := by
  induction xs with
  | nil => rfl
  | cons x xs ih =>
      show (read x).value.toList ++ (collect read xs).value = _
      rw [ih]
      cases hx : (read x).value with
      | none => simp [hx]
      | some y => simp [hx]

end Noted

/-- A member that is found is among the members. -/
theorem mem_members_of_get? {members : Members} {name : String} {v : Json}
    (h : Members.get? members name = some v) : (name, v) ∈ members := by
  obtain ⟨m, hm, rfl⟩ := Option.map_eq_some_iff.mp h
  have hname : m.1 = name := by simpa using List.find?_some hm
  rw [← hname]
  exact List.mem_of_find?_eq_some hm

/-- The value of a member, if it is there, repeats no name either. -/
theorem distinct_get? {members : Members} (h : (Json.object members).Distinct) (name : String) :
    ∀ v, Members.get? members name = some v → v.Distinct := by
  intro v hv
  cases h with
  | object _ hmembers => exact hmembers (name, v) (mem_members_of_get? hv)

section

variable {α : Type} {key : α → String} {read : Section → String → Json → Noted (Option α)}

/-- An entry that has been read comes from a member of an object. -/
theorem mem_readEntries {part : Section} {value : Option Json} {x : α}
    (hx : x ∈ (readEntries part value read).value) :
    ∃ members m, value = some (.object members) ∧ m ∈ members
      ∧ (read (part ++ [.member m.1]) m.1 m.2).value = some x := by
  cases value with
  | none => exact absurd hx List.not_mem_nil
  | some v =>
      cases v with
      | object members =>
          change x ∈ (Noted.collect _ members).value at hx
          rw [Noted.value_collect, List.mem_filterMap] at hx
          obtain ⟨m, hm, hread⟩ := hx
          exact ⟨members, m, rfl, hm, hread⟩
      | _ => exact absurd hx List.not_mem_nil

/-- What is read from a member has the name of the member as its key. -/
def ReadsKey (key : α → String) (read : Section → String → Json → Noted (Option α)) : Prop :=
  ∀ {part name v x}, (read part name v).value = some x → key x = name

/-- **A section that is read has every key once.** -/
theorem ReadsKey.nodup (h : ReadsKey key read) (part : Section) {value : Option Json}
    (hvalue : ∀ v, value = some v → v.Distinct) :
    ((readEntries part value read).value.map key).Nodup := by
  -- Entries that are left out leave the keys of the others in the order of the names.
  have hsub : ∀ members : Members,
      ((readEntries part (some (.object members)) read).value.map key).Sublist
        (members.map Prod.fst) := by
    intro members
    change ((Noted.collect _ members).value.map key).Sublist _
    rw [Noted.value_collect]
    induction members with
    | nil => exact List.Sublist.refl _
    | cons m members ih =>
        cases hm : (read (part ++ [.member m.1]) m.1 m.2).value with
        | none =>
            simp only [List.filterMap_cons, hm]
            exact ih.cons m.1
        | some x =>
            simp only [List.filterMap_cons, hm, List.map_cons, h hm]
            exact ih.cons_cons m.1
  cases value with
  | none => exact List.nodup_nil
  | some v =>
      cases hvalue v rfl with
      | object hnames _ => exact (hsub _).nodup hnames
      | _ => exact List.nodup_nil

end

/-- For each section, an entry has the name of its member for its key. -/
theorem path_readsKey : ReadsKey PathEntry.key readPath := by
  intro part name v p h
  unfold readPath at h
  split at h
  · cases h
    rfl
  · split at h
    · cases h
      rfl
    · cases h
  · cases h

theorem shim_readsKey : ReadsKey Shim.forModule readShim := by
  intro part name v s h
  cases v with
  | object body =>
      cases h
      rfl
  | _ => cases h

theorem replacement_readsKey : ReadsKey Replacement.old readReplacement := by
  intro part name v x h
  cases v with
  | string new =>
      cases h
      rfl
  | _ => cases h

theorem remap_readsKey : ReadsKey Remap.forModule readRemap := by
  intro part name v r h
  cases v with
  | object body =>
      cases h
      rfl
  | _ => cases h

theorem bundle_readsKey : ReadsKey Bundle.bundleId readBundle := by
  intro part name v b h
  cases h
  rfl

/-- No old name is read twice for one module. -/
theorem nodup_replacements_readRemaps {part : Section} {value : Option Json}
    (hvalue : ∀ v, value = some v → v.Distinct) :
    ∀ r ∈ (readRemaps part value).value, (r.replacements.map Replacement.old).Nodup := by
  intro r hr
  obtain ⟨members, m, rfl, hm, hread⟩ := mem_readEntries hr
  have hmember : m.2.Distinct := by
    cases hvalue _ rfl with
    | object _ hmembers => exact hmembers m hm
  generalize m.2 = v at hread hmember
  cases v with
  | object body =>
      cases hread
      dsimp only
      refine replacement_readsKey.nodup _ fun v hv => ?_
      cases hv
      exact hmember
  | _ => cases hread

/-! ## §2. Overrides. -/

/-- Every key of a nested section once. -/
structure Override.Settled (o : Override) : Prop where
  paths : (o.paths.map PathEntry.key).Nodup
  shims : (o.shims.map Shim.forModule).Nodup
  remaps : (o.remaps.map Remap.forModule).Nodup
  replacements : ∀ r ∈ o.remaps, (r.replacements.map Replacement.old).Nodup

/-- An override that has an id is read, with its sections from its own members. -/
theorem value_readOverride (part : Section) (key : Option String) (body : Members) :
    (readOverride part key (.object body)).value
      = (overrideId? key body).map fun id =>
          ⟨id, (readPaths (part ++ [.member "paths"]) (Members.get? body "paths")).value,
            (readShims (part ++ [.member "shim"]) (Members.get? body "shim")).value,
            (readRemaps (part ++ [.member "map"]) (Members.get? body "map")).value,
            (readStrings (part ++ [.member "bundledScripts"])
              (Members.get? body "bundledScripts")).value⟩ := by
  unfold readOverride
  rw [readObject, Noted.plain_bind]
  simp only
  cases overrideId? key body with
  | none => rfl
  | some id => rfl

/-- An override that has been read is settled, and named. -/
theorem settled_of_readOverride {part : Section} {key : Option String} {v : Json} {o : Override}
    (hv : v.Distinct) (h : (readOverride part key v).value = some o) :
    o.Settled ∧ o.isNamed = true := by
  cases hv with
  | @object body hnames hmembers =>
      have hbody : (Json.object body).Distinct := .object hnames hmembers
      rw [value_readOverride] at h
      obtain ⟨id, hid, rfl⟩ := Option.map_eq_some_iff.mp h
      refine ⟨⟨?_, ?_, ?_, ?_⟩, ?_⟩
      · exact path_readsKey.nodup _ (distinct_get? hbody "paths")
      · exact shim_readsKey.nodup _ (distinct_get? hbody "shim")
      · exact remap_readsKey.nodup _ (distinct_get? hbody "map")
      · exact nodup_replacements_readRemaps (distinct_get? hbody "map")
      · -- A blank id counts as none, and then there is no override.
        exact (Option.filter_eq_some_iff.mp hid).2
  | _ => cases h

/-- Overrides come from an array or an object, and are read one by one from either. -/
theorem exists_readOverride {part : Section} {value : Option Json} {o : Override}
    (hvalue : ∀ v, value = some v → v.Distinct) (ho : o ∈ (readOverrides part value).value) :
    ∃ part key v, v.Distinct ∧ (readOverride part key v).value = some o := by
  cases value with
  | none => exact absurd ho List.not_mem_nil
  | some v =>
      cases hvalue v rfl with
      | @array items hitems =>
          change o ∈ (Noted.collect _ items.zipIdx).value at ho
          rw [Noted.value_collect, List.mem_filterMap] at ho
          obtain ⟨entry, hentry, hread⟩ := ho
          exact ⟨_, _, _, hitems _ (List.fst_mem_of_mem_zipIdx hentry), hread⟩
      | @object members _ hmembers =>
          change o ∈ (Noted.collect _ members).value at ho
          rw [Noted.value_collect, List.mem_filterMap] at ho
          obtain ⟨m, hm, hread⟩ := ho
          exact ⟨_, _, _, hmembers m hm, hread⟩
      | _ => exact absurd ho List.not_mem_nil

/-! ## §3. Documents. -/

/-- What holds of a collection that was read: it is settled, and so are its
overrides. -/
structure Collection.Accepted (c : Collection) : Prop extends c.Settled where
  nested : ∀ o ∈ c.overrides, o.Settled

/-- A document in which no name occurs twice is read as a collection that could have been
accepted. -/
theorem accepted_readDocument (source : String) {document : Members}
    (h : (Json.object document).Distinct) : (readDocument source document).value.Accepted := by
  have hoverride : ∀ o ∈ (readDocument source document).value.overrides,
      o.Settled ∧ o.isNamed = true := by
    intro o ho
    obtain ⟨part, key, v, hv, hread⟩ := exists_readOverride (distinct_get? h "overrides") ho
    exact settled_of_readOverride hv hread
  constructor
  case toSettled =>
    constructor
    case paths => exact path_readsKey.nodup _ (distinct_get? h "paths")
    case bundlePaths => exact path_readsKey.nodup _ (distinct_get? h "bundlePaths")
    case shims => exact shim_readsKey.nodup _ (distinct_get? h "shim")
    case remaps => exact remap_readsKey.nodup _ (distinct_get? h "map")
    case replacements => exact nodup_replacements_readRemaps (distinct_get? h "map")
    case bundles => exact bundle_readsKey.nodup _ (distinct_get? h "bundles")
    case overrides => exact fun o ho => (hoverride o ho).2
  case nested => exact fun o ho => (hoverride o ho).1

/-- Every collection that a text is read as is one of those, since no object of a text has
a name twice. -/
theorem accepted_of_parse {text source : String} {outcome : Outcome}
    (h : parse text source = .ok outcome) : outcome.collection.Accepted := by
  unfold parse at h
  split at h
  case h_1 => cases h
  case h_2 document hread =>
    cases h
    exact accepted_readDocument source (Json.distinct_of_parse hread)
  case h_3 => cases h

/-! ## §4. Empty annotations. -/

/-- The override without the empty annotations of its sections. -/
def Override.pruned (o : Override) : Override :=
  { o with
    paths := o.paths.map PathEntry.normal
    shims := o.shims.map Shim.normal }

/-- The collection without empty annotations: a default bundle or an exported
name that is empty is none. -/
def Collection.pruned (c : Collection) : Collection :=
  { c with
    paths := c.paths.map PathEntry.normal
    bundlePaths := c.bundlePaths.map PathEntry.normal
    shims := c.shims.map Shim.normal
    overrides := c.overrides.map Override.pruned }

/-- Neither a default bundle nor an exported name is empty. -/
structure Collection.FullyAnnotated (c : Collection) : Prop where
  paths : ∀ p ∈ c.paths, p.defaultBundle ≠ some ""
  bundlePaths : ∀ p ∈ c.bundlePaths, p.defaultBundle ≠ some ""
  shims : ∀ s ∈ c.shims, s.exported ≠ some ""
  overridePaths : ∀ o ∈ c.overrides, ∀ p ∈ o.paths, p.defaultBundle ≠ some ""
  overrideShims : ∀ o ∈ c.overrides, ∀ s ∈ o.shims, s.exported ≠ some ""

theorem map_eq_self_iff {α : Type} {f : α → α} {xs : List α} :
    xs.map f = xs ↔ ∀ x ∈ xs, f x = x := by
  conv_lhs => rw [← List.map_id xs]
  rw [List.map_map]
  exact List.map_inj_left

theorem nonEmpty?_eq_self_iff (s : Option String) : nonEmpty? s = s ↔ s ≠ some "" := by
  cases s with
  | none => simp [nonEmpty?]
  | some t => simp [nonEmpty?, Option.filter_some]

/-- Only an empty default bundle is lost from a path. -/
theorem PathEntry.normal_eq_self_iff (p : PathEntry) :
    p.normal = p ↔ p.defaultBundle ≠ some "" := by
  rw [← nonEmpty?_eq_self_iff]
  exact ⟨congrArg PathEntry.defaultBundle, congrArg (PathEntry.mk p.key p.target)⟩

/-- Only an empty name for exports is lost from a shim. -/
theorem Shim.normal_eq_self_iff (s : Shim) : s.normal = s ↔ s.exported ≠ some "" := by
  rw [← nonEmpty?_eq_self_iff]
  exact ⟨congrArg Shim.exported, congrArg fun e => Shim.mk s.forModule e s.dependencies⟩

/-- Nothing is lost from an override if nothing is lost from its paths and shims. -/
theorem Override.pruned_eq_self_iff (o : Override) :
    o.pruned = o ↔ (∀ p ∈ o.paths, p.defaultBundle ≠ some "")
      ∧ ∀ s ∈ o.shims, s.exported ≠ some "" := by
  cases o
  simp only [Override.pruned, Override.mk.injEq, map_eq_self_iff, PathEntry.normal_eq_self_iff,
    Shim.normal_eq_self_iff, and_true, true_and]

/-- Pruning changes nothing exactly if no annotation is empty. -/
theorem Collection.pruned_eq_self_iff (c : Collection) : c.pruned = c ↔ c.FullyAnnotated := by
  have hfields : c.pruned = c ↔ (∀ p ∈ c.paths, p.defaultBundle ≠ some "")
      ∧ (∀ p ∈ c.bundlePaths, p.defaultBundle ≠ some "")
      ∧ (∀ s ∈ c.shims, s.exported ≠ some "") ∧ ∀ o ∈ c.overrides, o.pruned = o := by
    cases c
    simp only [Collection.pruned, Collection.mk.injEq, map_eq_self_iff,
      PathEntry.normal_eq_self_iff, Shim.normal_eq_self_iff, true_and]
  rw [hfields]
  constructor
  · rintro ⟨hpaths, hbundlePaths, hshims, hoverrides⟩
    refine ⟨hpaths, hbundlePaths, hshims, fun o ho => ?_, fun o ho => ?_⟩
    · exact (o.pruned_eq_self_iff.mp (hoverrides o ho)).1
    · exact (o.pruned_eq_self_iff.mp (hoverrides o ho)).2
  · rintro ⟨hpaths, hbundlePaths, hshims, hoverridePaths, hoverrideShims⟩
    refine ⟨hpaths, hbundlePaths, hshims, fun o ho => ?_⟩
    exact o.pruned_eq_self_iff.mpr ⟨hoverridePaths o ho, hoverrideShims o ho⟩

/-- From a settled override nothing but empty annotations is lost. -/
theorem Override.Settled.normal_eq {o : Override} (h : o.Settled) : o.normal = o.pruned := by
  have hremaps : normalEntries Remap.forModule Remap.normal o.remaps = o.remaps := by
    rw [normalEntries_of_nodup h.remaps]
    exact map_eq_self_iff.mpr fun r hr => Remap.normal_of_nodup (h.replacements r hr)
  unfold Override.normal Override.pruned
  rw [normalEntries_of_nodup h.paths, normalEntries_of_nodup h.shims, hremaps]

/-- The normal form of a collection that was read is the collection, pruned. -/
theorem Collection.Accepted.normal_eq {c : Collection} (h : c.Accepted) (name : String) :
    c.normal name = { c.pruned with source := some name } := by
  have hremaps : normalEntries Remap.forModule Remap.normal c.remaps = c.remaps := by
    rw [normalEntries_of_nodup h.remaps]
    exact map_eq_self_iff.mpr fun r hr => Remap.normal_of_nodup (h.replacements r hr)
  have hoverrides : c.overrides.map Override.normal = c.overrides.map Override.pruned :=
    List.map_congr_left fun o ho => (h.nested o ho).normal_eq
  unfold Collection.normal Collection.pruned
  rw [normalEntries_of_nodup h.paths, normalEntries_of_nodup h.bundlePaths,
      normalEntries_of_nodup h.shims, hremaps, normalEntries_of_nodup h.bundles, List.map_id,
      List.filter_eq_self.mpr h.overrides, hoverrides]

/-! ## §5. Reading again. -/

/-- **What was read is read again.**  A collection that was read from any text is
written to texts, compact and indented, that can both be read under any name and
leave no warning.  They give back the collection without its empty annotations:
a default bundle or an exported name that is empty comes back as none, and all
else, order included, comes back as it was.  The collection is the same in all
but its source exactly if it has no empty annotation. -/
theorem parse_toJson_of_parse {text source : String} {outcome : Outcome}
    (h : parse text source = .ok outcome) (name : String) :
    let c := outcome.collection
    parse c.toJson.render name = .ok ⟨{ c.pruned with source := some name }, []⟩
    ∧ parse c.toJson.renderPretty name = .ok ⟨{ c.pruned with source := some name }, []⟩
    ∧ ({ c.pruned with source := some name } = { c with source := some name }
      ↔ c.FullyAnnotated) := by
  intro c
  have haccepted : c.Accepted := accepted_of_parse h
  obtain ⟨hrender, hpretty⟩ := parse_texts c name
  have hdropped : c.dropped name = [] := by
    unfold Collection.dropped
    rw [unnamed_eq_nil haccepted.overrides, List.map_nil]
  rw [haccepted.normal_eq, hdropped] at hrender hpretty
  refine ⟨hrender, hpretty, ?_⟩
  rw [← c.pruned_eq_self_iff]
  -- The source is given back to both sides, or taken from both.
  constructor
  · intro hsame
    exact congrArg (fun d : Collection => { d with source := c.source }) hsame
  · intro hpruned
    rw [hpruned]

/-- A dependency that is no string is left out at first, and what is left stays:
all of the shim, and the override but for its empty default bundle. -/
theorem parse_toJson_of_parse_override :
    let text := "\x7b\"shim\":\x7b\"m\":\x7b\"exports\":\"M\",\"deps\":[\"a\",3,\"a\"]\x7d\x7d,"
      ++ "\"overrides\":\x7b\"b\":\x7b\"paths\":\x7b\"x\":\x7b\"path\":\"y\",\"defaultBundle\":\"\"\x7d\x7d\x7d\x7d\x7d"
    let c : Collection := {
      source := some "in.json"
      shims := [⟨"m", some "M", ["a", "a"]⟩]
      overrides := [⟨"b", [⟨"x", "y", some ""⟩], [], [], []⟩] }
    parse text "in.json" = .ok ⟨c, [⟨"in.json",
        ⟨[.member "shim", .member "m", .member "deps"], .notString .number⟩⟩]⟩
    ∧ parse c.toJson.render "out.json" = .ok ⟨{ c.pruned with source := some "out.json" }, []⟩
    ∧ c.pruned.shims = c.shims
    ∧ c.pruned.overrides = [⟨"b", [⟨"x", "y", none⟩], [], [], []⟩] := by
  intro text c
  have hread : parse text "in.json" = .ok ⟨c, [⟨"in.json",
      ⟨[.member "shim", .member "m", .member "deps"], .notString .number⟩⟩]⟩ :=
    eq_ok_of_toOption (by decide +kernel)
  exact ⟨hread, (parse_toJson_of_parse hread "out.json").1, by decide, by decide⟩

/-- **An empty default bundle is lost.** -/
theorem parse_toJson_empty_bundle :
    let text := "\x7b\"paths\":\x7b\"a\":\x7b\"path\":\"x\",\"defaultBundle\":\"\"\x7d\x7d\x7d"
    ∃ c, parse text "in.json" = .ok ⟨c, []⟩
      ∧ ¬ ∃ d, parse c.toJson.render "in.json" = .ok ⟨d, []⟩
        ∧ { d with source := c.source } = c := by
  intro text
  have hread : parse text "in.json"
      = .ok ⟨{ source := some "in.json", paths := [⟨"a", "x", some ""⟩] }, []⟩ :=
    eq_ok_of_toOption (by decide +kernel)
  have hreread : parse
      (Collection.toJson { source := some "in.json", paths := [⟨"a", "x", some ""⟩] }).render
        "in.json" = .ok ⟨{ source := some "in.json", paths := [⟨"a", "x", none⟩] }, []⟩ :=
    eq_ok_of_toOption (by decide +kernel)
  refine ⟨_, hread, ?_⟩
  rintro ⟨d, hd, hsame⟩
  rw [hreread] at hd
  cases hd
  exact absurd hsame (by decide)

end AmdKit.Loader
