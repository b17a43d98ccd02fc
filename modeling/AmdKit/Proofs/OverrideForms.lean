/-
  AmdKit.Proofs.OverrideForms
  ────────────────────────────────
  **TWO FORMS OF OVERRIDES.**

  Overrides are written as an object, with the bundle ids as the names of its
  members, or as a list, with the bundle ids inside of the overrides:

      \x7b id : body, … \x7d        [ body with its `bundleId` set to id, … ]

  The two are read as the same overrides, whatever is in the bodies and whatever
  is wrong with them.  They leave the same warnings in the same order, too, but
  for the name of the part: an override of the object is named by its bundle id,
  one of the list by its index.
-/
import AmdKit.Proofs.AcceptedCollections
import AmdKit.Proofs.MergedEntries
import AmdKit.Proofs.Relocation

namespace AmdKit.Loader

open Json (Members)

/-! ## §1. The two forms. -/

/-- The body of an override with its bundle id set. -/
def withBundleId (id : String) (body : Members) : Members :=
  body.set "bundleId" (.string id)

/-- Overrides as an object. -/
def keyedOverrides (bodies : List (String × Members)) : Json :=
  .object (bodies.map fun b => (b.1, .object b.2))

/-- Overrides as a list. -/
def listedOverrides (bodies : List (String × Members)) : Json :=
  .array (bodies.map fun b => .object (withBundleId b.1 b.2))

/-- The section with the index of an override in place of its bundle id. -/
def Section.byIndex (ids : List String) : Section → Section
  | .member "overrides" :: .member id :: inner =>
    .member "overrides" :: .item (ids.idxOf id) :: inner
  | part => part

/-- The note with the index of an override in place of its bundle id. -/
def Note.byIndex (ids : List String) (note : Note) : Note :=
  ⟨note.part.byIndex ids, note.reason⟩

/-- The warning with the index of an override in place of its bundle id. -/
def Warning.byIndex (ids : List String) (warning : Warning) : Warning :=
  ⟨warning.source, warning.note.byIndex ids⟩

/-! ## §2. One override. -/

/-- The id counts in the same way as the name of a member and as the `bundleId`. -/
theorem overrideId?_withBundleId (id : String) (body : Members) :
    overrideId? none (withBundleId id body) = overrideId? (some id) body := by
  unfold overrideId? withBundleId
  rw [Members.get?_set, if_pos rfl]
  rfl

/-- **An override is read in the same way under both forms.** -/
theorem readOverride_withBundleId (part : Section) (id : String) (body : Members) :
    readOverride part none (.object (withBundleId id body))
      = readOverride part (some id) (.object body) := by
  have hother : ∀ name, "bundleId" ≠ name →
      Members.get? (withBundleId id body) name = Members.get? body name := by
    intro name hname
    unfold withBundleId
    rw [Members.get?_set, if_neg hname]
  unfold readOverride
  rw [readObject, readObject, Noted.plain_bind, Noted.plain_bind]
  simp only
  rw [overrideId?_withBundleId, hother "paths" (by decide), hother "shim" (by decide),
      hother "map" (by decide), hother "bundledScripts" (by decide)]

/-! ## §3. All overrides. -/

section

variable (bodies : List (String × Members))

/-- The list reads the override at an index, and the name of the member plays no part. -/
theorem readOverrides_listed (part : Section) :
    readOverrides part (some (listedOverrides bodies))
      = Noted.collect (fun e => readOverride (part ++ [.item e.2]) (some e.1.1) (.object e.1.2))
          bodies.zipIdx := by
  have hindex : (bodies.map fun b => Json.object (withBundleId b.1 b.2)).zipIdx
      = bodies.zipIdx.map (Prod.map (fun b => Json.object (withBundleId b.1 b.2)) id) :=
    List.zipIdx_map ..
  show Noted.collect _ (bodies.map fun b => Json.object (withBundleId b.1 b.2)).zipIdx = _
  rw [hindex]
  exact Noted.collect_congr_map fun e _ => readOverride_withBundleId _ e.1.1 e.1.2

theorem readOverrides_keyed (part : Section) :
    readOverrides part (some (keyedOverrides bodies))
      = Noted.collect (fun b => readOverride (part ++ [.member b.1]) (some b.1) (.object b.2))
          bodies :=
  Noted.collect_congr_map fun _ _ => rfl

/-- Where an override stands does not count for what is read of it. -/
theorem value_readOverride_at (part : Section) (key : Option String) (v : Json) :
    (readOverride part key v).value = (readOverride [] key v).value := by
  rw [readOverride_eq_under]
  rfl

/-- **Both forms are read as the same overrides.** -/
theorem value_readOverrides_listed (part : Section) :
    (readOverrides part (some (listedOverrides bodies))).value
      = (readOverrides part (some (keyedOverrides bodies))).value := by
  rw [readOverrides_listed, readOverrides_keyed, Noted.value_collect, Noted.value_collect]
  simp only [value_readOverride_at (part ++ _)]
  conv_rhs => rw [← List.zipIdx_map_fst 0 bodies, List.filterMap_map]
  rfl

/-- Of an object of overrides those are read whose id is not blank. -/
theorem bundleIds_readOverrides_keyed (part : Section) :
    (readOverrides part (some (keyedOverrides bodies))).value.map Override.bundleId
      = (bodies.map Prod.fst).filter fun id => !Text.allBlank id := by
  rw [readOverrides_keyed, Noted.value_collect, List.map_filterMap, ← List.filterMap_eq_filter,
      List.filterMap_map]
  refine List.filterMap_congr fun b _ => ?_
  rw [value_readOverride, Option.map_map]
  exact congrFun Option.map_id _

theorem idxOf_of_mem_zipIdx {bodies : List (String × Members)}
    (hids : (bodies.map Prod.fst).Nodup) {b : String × Members} {i : Nat}
    (hb : (b, i) ∈ bodies.zipIdx) : (bodies.map Prod.fst).idxOf b.1 = i := by
  obtain ⟨hi, hget⟩ := List.getElem?_eq_some_iff.mp (List.mem_zipIdx_iff_getElem?.mp hb)
  have hlength : i < (bodies.map Prod.fst).length := by rwa [List.length_map]
  have hid : (bodies.map Prod.fst)[i] = b.1 := by rw [List.getElem_map, hget]
  rw [← hid]
  exact hids.idxOf_getElem i hlength

/-- **Both forms leave the same notes**, but for the names of the overrides. -/
theorem notes_readOverrides_listed (hids : (bodies.map Prod.fst).Nodup) :
    (readOverrides [.member "overrides"] (some (listedOverrides bodies))).notes
      = (readOverrides [.member "overrides"] (some (keyedOverrides bodies))).notes.map
          (Note.byIndex (bodies.map Prod.fst)) := by
  have hkeyed : (bodies.flatMap fun b =>
        (readOverride ([.member "overrides"] ++ [.member b.1]) (some b.1) (.object b.2)).notes)
      = bodies.zipIdx.flatMap fun e =>
          (readOverride ([.member "overrides"] ++ [.member e.1.1]) (some e.1.1)
            (.object e.1.2)).notes := by
    conv_lhs => rw [← List.zipIdx_map_fst 0 bodies, List.flatMap_map]
  rw [readOverrides_listed, readOverrides_keyed, Noted.notes_collect, Noted.notes_collect, hkeyed,
      List.map_flatMap]
  refine List.flatMap_congr ?_
  rintro ⟨b, i⟩ hb
  have hmoved : ∀ part, (readOverride part (some b.1) (.object b.2)).notes
      = (readOverride [] (some b.1) (.object b.2)).notes.map (Note.under part) :=
    fun part => congrArg Noted.notes (readOverride_eq_under part (some b.1) (.object b.2))
  refine (hmoved _).trans (Eq.trans ?_ (congrArg _ (hmoved _).symm))
  rw [List.map_map]
  refine List.map_congr_left fun note _ => ?_
  show Note.mk (.member "overrides" :: .item i :: note.part) note.reason = Note.mk
    (.member "overrides" :: .item ((bodies.map Prod.fst).idxOf b.1) :: note.part) note.reason
  rw [idxOf_of_mem_zipIdx hids hb]

end

/-! ## §4. Documents. -/

/-- Only notes about overrides name one. -/
theorem Note.byIndex_of_ne {ids : List String} {name : String} {note : Note}
    (hname : name ≠ "overrides") (h : [.member name] <+: note.part) : note.byIndex ids = note := by
  obtain ⟨inner, hinner⟩ := h
  unfold Note.byIndex Section.byIndex
  rw [← hinner]
  split
  next heq =>
    rw [List.singleton_append, List.cons.injEq, Step.member.injEq] at heq
    exact absurd heq.1 hname
  next => exact congrArg (Note.mk · note.reason) hinner

theorem DocumentPart.map_byIndex_notes {part : DocumentPart} (hpart : part ≠ .overrides)
    (ids : List String) (value : Option Json) :
    (part.notes value).map (Note.byIndex ids) = part.notes value := by
  have hname : part.member ≠ "overrides" := fun h => hpart (DocumentPart.member_injective h)
  conv_rhs => rw [← List.map_id (part.notes value)]
  exact List.map_congr_left fun note hnote =>
    Note.byIndex_of_ne hname (DocumentPart.prefix_of_mem_notes hnote)

/-- **The two forms of overrides agree.**  Take two texts whose documents give the same
values to all sections but the overrides.  The one has them as an object, the bundle
ids as the names of its members; the other has them as a list, each body with its
`bundleId` set to the id.  Then both are read, and

  * the collections are equal, overrides and their order included;
  * an override is left out, under both forms, exactly if its id is blank;
  * the warnings are the same ones in the same order and with the same reasons, but for
    the index of an override in place of its bundle id. -/
theorem parse_override_forms (name : String) {keyed listed : String}
    {document document' : Members} {bodies : List (String × Members)}
    (hkeyed : Json.parse keyed = .ok (.object document))
    (hlisted : Json.parse listed = .ok (.object document'))
    (hoverrides : Members.get? document "overrides" = some (keyedOverrides bodies))
    (hoverrides' : Members.get? document' "overrides" = some (listedOverrides bodies))
    (hsame : ∀ part : DocumentPart, part ≠ .overrides →
      Members.get? document part.member = Members.get? document' part.member) :
    ∃ outcome outcome', parse keyed name = .ok outcome ∧ parse listed name = .ok outcome'
      ∧ outcome'.collection = outcome.collection
      ∧ outcome.collection.overrides.map Override.bundleId
        = (bodies.map Prod.fst).filter (fun id => !Text.allBlank id)
      ∧ outcome'.warnings
        = outcome.warnings.map (Warning.byIndex (bodies.map Prod.fst)) := by
  have hids : (bodies.map Prod.fst).Nodup := by
    have hdistinct := distinct_get? (Json.distinct_of_parse hkeyed) "overrides" _ hoverrides
    cases hdistinct with
    | object hnames _ =>
        rw [List.map_map] at hnames
        exact hnames
  -- Both documents are read section by section, and differ in the overrides only.
  refine ⟨_, _, parse_of_object hkeyed name, parse_of_object hlisted name, ?_, ?_, ?_⟩
  · unfold readOutcome
    rw [value_readDocument, value_readDocument, hoverrides, hoverrides',
        value_readOverrides_listed]
    have hpaths := hsame .paths (by decide)
    have hbundlePaths := hsame .bundlePaths (by decide)
    have hshims := hsame .shims (by decide)
    have hremaps := hsame .remaps (by decide)
    have hbundles := hsame .bundles (by decide)
    simp only [DocumentPart.member] at hpaths hbundlePaths hshims hremaps hbundles
    rw [hpaths, hbundlePaths, hshims, hremaps, hbundles]
  · unfold readOutcome
    rw [value_readDocument, hoverrides]
    exact bundleIds_readOverrides_keyed bodies _
  · unfold readOutcome
    rw [notes_readDocument, notes_readDocument, List.map_map, List.map_flatMap, List.map_flatMap]
    refine List.flatMap_congr fun part _ => ?_
    by_cases hpart : part = .overrides
    · subst hpart
      have hnotes := notes_readOverrides_listed bodies hids
      show List.map _ (readOverrides _ (Members.get? document' "overrides")).notes
        = List.map _ (readOverrides _ (Members.get? document "overrides")).notes
      rw [hoverrides, hoverrides', hnotes, List.map_map]
      rfl
    · -- The notes of any other section are the same, and name no override.
      have hnotes := DocumentPart.map_byIndex_notes hpart (bodies.map Prod.fst)
        (Members.get? document part.member)
      rw [← hsame part hpart]
      conv_lhs => rw [← hnotes, List.map_map]
      rfl

/-- An id that is no string inside of a body, a shim that is none, and a blank id. -/
theorem parse_override_forms_malformed :
    let bodies : List (String × Members) :=
      [("a", [("bundleId", .bool true), ("shim", .object [("m", .string "x")])]), (" ", [])]
    let paths : String × Json := ("paths", .object [("x", .null)])
    let keyed := (Json.object [paths, ("overrides", keyedOverrides bodies)]).render
    let listed := (Json.object [("overrides", listedOverrides bodies), paths]).render
    let read : Collection := { source := some "in.json", overrides := [⟨"a", [], [], [], []⟩] }
    parse keyed "in.json" = .ok ⟨read,
      [⟨"in.json", ⟨[.member "paths", .member "x"], .notStringOrObject .null⟩⟩,
        ⟨"in.json", ⟨[.member "overrides", .member "a", .member "shim", .member "m"],
          .notObject .string⟩⟩,
        ⟨"in.json", ⟨[.member "overrides", .member " "], .missingBundleId⟩⟩]⟩
    ∧ parse listed "in.json" = .ok ⟨read,
      [⟨"in.json", ⟨[.member "paths", .member "x"], .notStringOrObject .null⟩⟩,
        ⟨"in.json", ⟨[.member "overrides", .item 0, .member "shim", .member "m"],
          .notObject .string⟩⟩,
        ⟨"in.json", ⟨[.member "overrides", .item 1], .missingBundleId⟩⟩]⟩ := by
  intro bodies paths keyed listed read
  have hpaths : Json.Within 126 paths.2 :=
    .object (by decide) (List.forall_mem_singleton.mpr (.null _))
  have hshim : Json.Within 124 (.object [("m", .string "x")]) :=
    .object (by decide) (List.forall_mem_singleton.mpr (.string _ _))
  have hkeyed : Json.Within 126 (keyedOverrides bodies) := by
    refine .object (by decide) (List.forall_mem_cons.mpr ⟨?_, List.forall_mem_singleton.mpr ?_⟩)
    · exact .object (by decide)
        (List.forall_mem_cons.mpr ⟨.bool _ _, List.forall_mem_singleton.mpr hshim⟩)
    · exact .object (by decide) (List.forall_mem_nil _)
  have hlisted : Json.Within 126 (listedOverrides bodies) := by
    refine .array (List.forall_mem_cons.mpr ⟨?_, List.forall_mem_singleton.mpr ?_⟩)
    · exact .object (by decide)
        (List.forall_mem_cons.mpr ⟨.string _ _, List.forall_mem_singleton.mpr hshim⟩)
    · exact .object (by decide) (List.forall_mem_singleton.mpr (.string _ _))
  have hkeyedDocument : Json.Within 127 (.object [paths, ("overrides", keyedOverrides bodies)]) :=
    .object (by decide) (List.forall_mem_cons.mpr ⟨hpaths, List.forall_mem_singleton.mpr hkeyed⟩)
  have hlistedDocument :
      Json.Within 127 (.object [("overrides", listedOverrides bodies), paths]) :=
    .object (by decide) (List.forall_mem_cons.mpr ⟨hlisted, List.forall_mem_singleton.mpr hpaths⟩)
  obtain ⟨outcome, outcome', hparse, hparse', hcollection, -, hwarnings⟩ :=
    parse_override_forms "in.json" (Json.parse_render hkeyedDocument).1
      (Json.parse_render hlistedDocument).1 rfl rfl fun part hpart => by
        cases part with
        | overrides => exact absurd rfl hpart
        | _ => rfl
  have hkeyedOutcome : parse keyed "in.json" = .ok ⟨read,
      [⟨"in.json", ⟨[.member "paths", .member "x"], .notStringOrObject .null⟩⟩,
        ⟨"in.json", ⟨[.member "overrides", .member "a", .member "shim", .member "m"],
          .notObject .string⟩⟩,
        ⟨"in.json", ⟨[.member "overrides", .member " "], .missingBundleId⟩⟩]⟩ :=
    eq_ok_of_toOption (by decide +kernel)
  refine ⟨hkeyedOutcome, hparse'.trans ?_⟩
  obtain rfl := Except.ok.inj (hparse.symm.trans hkeyedOutcome)
  obtain ⟨collection, warnings⟩ := outcome'
  rw [show collection = read from hcollection, show warnings = _ from hwarnings]
  rfl

end AmdKit.Loader
