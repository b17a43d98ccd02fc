/-
  AmdKit.Proofs.SectionLocality
  ────────────────────────────────
  **EACH SECTION IS READ FROM ITS OWN MEMBER.**

  A document is read from the values of six of its members, in a fixed order.
  What one section yields depends on the value of its member only, and what is
  noted on the way is the notes of the members, one after the other:

      collection  — the sections that the members give when they stand alone
      warnings    — the warnings that they give when they stand alone, in a row

  Main result: `parse_by_sections`.  Neither the order of the members nor a
  malformed entry in one of them can change what another one yields, and nothing
  but a text that is no JSON object is refused.
-/
import AmdKit.Loader.Reader
import AmdKit.Proofs.JsonLocality

namespace AmdKit.Loader

open Json (Members)

/-! ## §1. Sections and their members. -/

/-- The sections of a document. -/
inductive DocumentPart where
  | paths
  | bundlePaths
  | shims
  | remaps
  | bundles
  | overrides
  deriving DecidableEq, Repr

namespace DocumentPart

/-- The sections in the order in which they are read. -/
def all : List DocumentPart := [paths, bundlePaths, shims, remaps, bundles, overrides]

/-- The name of the member that a section is read from. -/
def member : DocumentPart → String
  | paths => "paths"
  | bundlePaths => "bundlePaths"
  | shims => "shim"
  | remaps => "map"
  | bundles => "bundles"
  | overrides => "overrides"

/-- No two sections have the same member. -/
theorem member_injective {part other : DocumentPart} (h : part.member = other.member) :
    part = other := by
  revert h
  cases part <;> cases other <;> decide

end DocumentPart

/-- The collection without its other sections. -/
def Collection.only (c : Collection) : DocumentPart → Collection
  | .paths => { source := c.source, paths := c.paths }
  | .bundlePaths => { source := c.source, bundlePaths := c.bundlePaths }
  | .shims => { source := c.source, shims := c.shims }
  | .remaps => { source := c.source, remaps := c.remaps }
  | .bundles => { source := c.source, bundles := c.bundles }
  | .overrides => { source := c.source, overrides := c.overrides }

/-! ## §2. Reading from the values of the members. -/

/-- Read the sections from the values of their members. -/
def readValues (source : String) (values : DocumentPart → Option Json) : Noted Collection := do
  let paths ← readPaths [.member "paths"] (values .paths)
  let bundlePaths ← readPaths [.member "bundlePaths"] (values .bundlePaths)
  let shims ← readShims [.member "shim"] (values .shims)
  let remaps ← readRemaps [.member "map"] (values .remaps)
  let bundles ← readBundles [.member "bundles"] (values .bundles)
  let overrides ← readOverrides [.member "overrides"] (values .overrides)
  return ⟨some source, paths, bundlePaths, shims, remaps, bundles, overrides⟩

/-- The value of one member, the others being absent. -/
def DocumentPart.alone (part : DocumentPart) (value : Option Json) : DocumentPart → Option Json :=
  fun other => if other = part then value else none

/-- A document is read from the values of its six members, whatever else it has. -/
theorem readDocument_eq (source : String) (document : Members) :
    readDocument source document
      = readValues source fun part => Members.get? document part.member := rfl

/-- A document with a single section is read from the value of that one. -/
theorem readDocument_only (source : String) (document : Members) (part : DocumentPart) :
    readDocument source (document.only part.member)
      = readValues source (part.alone (Members.get? document part.member)) := by
  -- Of the six values, the reduced document keeps the one of the section.
  rw [readDocument_eq]
  congr 1
  funext other
  rw [Members.get?_only]
  unfold DocumentPart.alone
  by_cases hpart : other = part
  · rw [if_pos hpart, if_pos (congrArg _ hpart), hpart]
  · rw [if_neg hpart, if_neg fun h => hpart (DocumentPart.member_injective h)]

section

variable (source : String) (values : DocumentPart → Option Json)

/-- A section depends on the value of its own member only. -/
theorem value_readValues_alone (part : DocumentPart) :
    (readValues source (part.alone (values part))).value
      = (readValues source values).value.only part := by
  cases part <;> rfl

/-- The notes are those of the members, in the order of the sections. -/
theorem notes_readValues :
    (readValues source values).notes
      = DocumentPart.all.flatMap fun part =>
          (readValues source (part.alone (values part))).notes := by
  -- An absent member gives an empty section and no note.
  have hpaths : ∀ part, readPaths part none = .plain [] := fun _ => rfl
  have hshims : ∀ part, readShims part none = .plain [] := fun _ => rfl
  have hremaps : ∀ part, readRemaps part none = .plain [] := fun _ => rfl
  have hbundles : ∀ part, readBundles part none = .plain [] := fun _ => rfl
  have hoverrides : ∀ part, readOverrides part none = .plain [] := fun _ => rfl
  unfold readValues DocumentPart.all DocumentPart.alone
  simp [bind, pure, Noted.andThen, Noted.plain, hpaths, hshims, hremaps, hbundles, hoverrides]

end

/-! ## §3. Documents. -/

/-- What is read from a document. -/
def readOutcome (name : String) (document : Members) : Outcome where
  collection := (readDocument name document).value
  warnings := (readDocument name document).notes.map fun note => ⟨name, note⟩

/-- A text that is an object is read. -/
theorem parse_of_object {text : String} {document : Members}
    (h : Json.parse text = .ok (.object document)) (name : String) :
    parse text name = .ok (readOutcome name document) := by
  unfold parse
  rw [h]
  rfl

/-- Documents with the same sections are read alike. -/
theorem readOutcome_congr {document document' : Members} (name : String)
    (h : ∀ part : DocumentPart,
      Members.get? document part.member = Members.get? document' part.member) :
    readOutcome name document = readOutcome name document' := by
  unfold readOutcome
  rw [readDocument_eq, readDocument_eq, funext h]

/-- A document with a single section has nothing in the others. -/
theorem collection_readOutcome_only (name : String) (document : Members) (part : DocumentPart) :
    (readOutcome name (document.only part.member)).collection
      = (readOutcome name document).collection.only part := by
  unfold readOutcome
  rw [readDocument_only]
  exact value_readValues_alone name (fun part => Members.get? document part.member) part

/-- The warnings on a document are those on its sections, in their order. -/
theorem warnings_readOutcome (name : String) (document : Members) :
    (readOutcome name document).warnings
      = DocumentPart.all.flatMap fun part =>
          (readOutcome name (document.only part.member)).warnings := by
  unfold readOutcome
  simp only [readDocument_only]
  rw [readDocument_eq, notes_readValues, List.map_flatMap]

/-- A text is refused only if it is no JSON, or is no object. -/
theorem parse_eq_error_iff (text name : String) (failure : Failure) :
    parse text name = .error failure ↔
      (∃ fault, Json.parse text = .error fault ∧ failure = .invalidJson name fault)
      ∨ ∃ v, Json.parse text = .ok v ∧ (∀ document, v ≠ .object document)
        ∧ failure = .notAnObject name := by
  unfold parse
  constructor
  · intro h
    split at h
    case h_1 fault hread =>
      cases h
      exact Or.inl ⟨fault, hread, rfl⟩
    case h_2 => cases h
    case h_3 v hobject hread =>
      cases h
      exact Or.inr ⟨v, hread, hobject, rfl⟩
  · rintro (⟨fault, hread, rfl⟩ | ⟨v, hread, hobject, rfl⟩)
    · rw [hread]
    · rw [hread]
      cases v with
      | object document => exact absurd rfl (hobject document)
      | _ => rfl

/-- **Sections are read from their own members.**  Under any name,

  * a text is refused only if it is no JSON, or JSON but no object;
  * texts that give the same value, or none, to each of the six members are read
    alike, in whatever order they have their members and whatever else they have;
  * a document can be reduced to any single member, and every text of the reduced
    document gives the section of that member as the whole text gives it, and no
    other; the warnings of the whole text are those of the reduced ones, in the
    order of the sections. -/
theorem parse_by_sections (name : String) :
    (∀ text failure, parse text name = .error failure ↔
      (∃ fault, Json.parse text = .error fault ∧ failure = .invalidJson name fault)
      ∨ ∃ v, Json.parse text = .ok v ∧ (∀ document, v ≠ .object document)
        ∧ failure = .notAnObject name)
    ∧ (∀ text text' (document document' : Members),
      Json.parse text = .ok (.object document) → Json.parse text' = .ok (.object document') →
      (∀ part : DocumentPart,
        Members.get? document part.member = Members.get? document' part.member) →
      ∃ outcome, parse text name = .ok outcome ∧ parse text' name = .ok outcome)
    ∧ ∀ text (document : Members), Json.parse text = .ok (.object document) →
      ∃ (whole : Outcome) (alone : DocumentPart → Outcome), parse text name = .ok whole
        ∧ (∀ part,
          (∃ reduced, Json.parse reduced = .ok (.object (document.only part.member)))
          ∧ (∀ reduced, Json.parse reduced = .ok (.object (document.only part.member)) →
            parse reduced name = .ok (alone part))
          ∧ (alone part).collection = whole.collection.only part)
        ∧ whole.warnings = DocumentPart.all.flatMap fun part => (alone part).warnings := by
  refine ⟨fun text failure => parse_eq_error_iff text name failure, ?_, ?_⟩
  · -- The outcome is made of the six values.
    intro text text' document document' hread hread' hsame
    have houtcome := readOutcome_congr name hsame
    exact ⟨_, parse_of_object hread name, houtcome ▸ parse_of_object hread' name⟩
  · -- A member on its own is the document that has no other one.
    intro text document hread
    refine ⟨_, fun part => readOutcome name (document.only part.member),
      parse_of_object hread name, fun part => ?_, warnings_readOutcome name document⟩
    refine ⟨Json.exists_text_of_only hread part.member, fun reduced hreduced => ?_, ?_⟩
    · exact parse_of_object hreduced name
    · exact collection_readOutcome_only name document part

/-- A section and an entry that are malformed, and the same members in another
order with one more: what is well formed is read, and read alike. -/
theorem parse_by_sections_malformed :
    let document : Members := [("paths", .bool true),
      ("map", .object [("m", .object [("a", .string "b"), ("c", .null)])])]
    let text := (Json.object document).render
    let text' := (Json.object (("x", .null) :: document.reverse)).render
    let whole : Outcome := ⟨{ source := some "in.json", remaps := [⟨"m", [⟨"a", "b"⟩]⟩] },
      [⟨"in.json", ⟨[.member "paths"], .notObject .boolean⟩⟩,
        ⟨"in.json", ⟨[.member "map", .member "m", .member "c"], .notString .null⟩⟩]⟩
    parse text "in.json" = .ok whole ∧ parse text' "in.json" = .ok whole
    ∧ ∃ alone : DocumentPart → Outcome,
      (∀ part,
        (∃ reduced, Json.parse reduced = .ok (.object (document.only part.member)))
        ∧ (∀ reduced, Json.parse reduced = .ok (.object (document.only part.member)) →
          parse reduced "in.json" = .ok (alone part))
        ∧ (alone part).collection = whole.collection.only part)
      ∧ whole.warnings = DocumentPart.all.flatMap fun part => (alone part).warnings := by
  intro document text text' whole
  have hmap : Json.Within 126
      (.object [("m", .object [("a", .string "b"), ("c", .null)])]) := by
    refine .object (by decide) (List.forall_mem_cons.mpr ⟨?_, List.forall_mem_nil _⟩)
    refine .object (by decide) (List.forall_mem_cons.mpr ⟨.string _ _, ?_⟩)
    exact List.forall_mem_cons.mpr ⟨.null _, List.forall_mem_nil _⟩
  have hwithin : ∀ m ∈ ("x", .null) :: document, Json.Within 126 m.2 := by
    refine List.forall_mem_cons.mpr ⟨.null _, List.forall_mem_cons.mpr ⟨.bool _ _, ?_⟩⟩
    exact List.forall_mem_cons.mpr ⟨hmap, List.forall_mem_nil _⟩
  have hread : Json.parse text = .ok (.object document) :=
    (Json.parse_render (.object (by decide) fun m hm => hwithin m (List.mem_cons_of_mem _ hm))).1
  have hread' : Json.parse text' = .ok (.object (("x", .null) :: document.reverse)) := by
    refine (Json.parse_render (.object (by decide) fun m hm => hwithin m ?_)).1
    simpa using hm
  have hwhole : parse text "in.json" = .ok whole := eq_ok_of_toOption (by decide +kernel)
  obtain ⟨-, hsame, halone⟩ := parse_by_sections "in.json"
  obtain ⟨outcome, htext, htext'⟩ := hsame _ _ _ _ hread hread' fun part => by
    cases part <;> rfl
  obtain ⟨read, alone, hparse, hsections⟩ := halone _ _ hread
  rw [hwhole] at htext hparse
  cases htext
  cases hparse
  exact ⟨hwhole, htext', alone, hsections⟩

end AmdKit.Loader
