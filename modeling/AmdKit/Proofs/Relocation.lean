/-
  AmdKit.Proofs.Relocation
  ────────────────────────────────
  **NOTES MOVE WITH THE PART.**

  A part of a document is read in the same way wherever it stands.  The section
  that it is read as goes in front of the notes, and into nothing else:

      read part v  =  (read [] v).under part

  So the value of a part does not depend on where it stands, and every note that
  is taken inside of it names a section inside of it.
-/
import AmdKit.Proofs.SectionLocality

namespace AmdKit.Loader

open Json (Members)

/-! ## §1. Moving notes. -/

/-- The note with its section moved under a part. -/
def Note.under (part : Section) (note : Note) : Note := ⟨part ++ note.part, note.reason⟩

namespace Noted

variable {α β : Type}

/-- The value with its notes moved under a part. -/
def under (part : Section) (x : Noted α) : Noted α := ⟨x.value, x.notes.map (Note.under part)⟩

theorem under_skipped (part inner : Section) (x : α) (reason : Reason) :
    (skipped x inner reason).under part = skipped x (part ++ inner) reason := rfl

/-- Notes may be moved before they are put together, or behind that. -/
theorem under_bind (part : Section) (x : Noted α) (f : α → Noted β) :
    (x >>= f).under part = x.under part >>= fun a => (f a).under part := by
  show (x.andThen f).under part = (x.under part).andThen fun a => (f a).under part
  unfold andThen under
  rw [List.map_append]

/-- Moving notes twice moves them into the inner section of the outer one. -/
theorem under_under (part inner : Section) (x : Noted α) :
    (x.under inner).under part = x.under (part ++ inner) := by
  unfold under
  rw [List.map_map]
  congr 2
  funext note
  exact congrArg (Note.mk · note.reason) (List.append_assoc part inner note.part).symm

/-- The notes on entries are those on each of them, one after the other. -/
theorem notes_collect (read : α → Noted (Option β)) (xs : List α) :
    (collect read xs).notes = xs.flatMap fun x => (read x).notes := by
  induction xs with
  | nil => rfl
  | cons x xs ih =>
      unfold collect
      rw [List.flatMap_cons, ← ih]

/-- Entries read alike are collected alike, whatever they have been made of. -/
theorem collect_congr_map {γ : Type} {read : β → Noted (Option γ)} {readOf : α → Noted (Option γ)}
    {entry : α → β} {xs : List α} (h : ∀ x ∈ xs, read (entry x) = readOf x) :
    collect read (xs.map entry) = collect readOf xs := by
  induction xs with
  | nil => rfl
  | cons x xs ih =>
      obtain ⟨hx, hxs⟩ := List.forall_mem_cons.mp h
      rw [List.map_cons]
      unfold collect
      rw [hx, ih hxs]

/-- The notes on entries are moved together. -/
theorem under_collect (part : Section) (read : α → Noted (Option β)) (xs : List α) :
    (collect read xs).under part = collect (fun x => (read x).under part) xs := by
  induction xs with
  | nil => rfl
  | cons x xs ih =>
      unfold collect
      rw [← ih]
      unfold under
      rw [List.map_append]

/-! ## §2. Located readers. -/

/-- The reader lets the part that it is given go in front of its notes, and does
nothing else with it. -/
def Located (read : Section → Noted α) : Prop := ∀ part, read part = (read []).under part

theorem Located.ofPlain (x : α) : Located fun _ => plain x := fun _ => rfl

theorem Located.ofSkipped (x : α) (reason : Reason) :
    Located fun part => skipped x part reason := by
  intro part
  rw [under_skipped, List.append_nil]

/-- A located reader that goes on with others is located if all of them are. -/
theorem Located.bind {read : Section → Noted α} {next : α → Section → Noted β}
    (hread : Located read) (hnext : ∀ a, Located (next a)) :
    Located fun part => read part >>= fun a => next a part := by
  intro part
  rw [under_bind, ← hread part]
  show (read part >>= fun a => next a part) = _
  congr 1
  funext a
  exact hnext a part

/-- What is read one step further in is located, too. -/
theorem Located.inside {read : Section → Noted α} (h : Located read) (step : Step) :
    Located fun part => read (part ++ [step]) := by
  intro part
  show read (part ++ [step]) = (read ([] ++ [step])).under part
  rw [h (part ++ [step]), h ([] ++ [step]), under_under]
  rfl

/-- So is one that reads entries. -/
theorem Located.collect {read : α → Section → Noted (Option β)} (h : ∀ x, Located (read x))
    (xs : List α) : Located fun part => collect (fun x => read x part) xs := by
  intro part
  rw [under_collect]
  show Noted.collect (fun x => read x part) xs = _
  congr 1
  funext x
  exact h x part

/-- Every note of a located reader is taken inside of the part. -/
theorem Located.prefix_of_mem {read : Section → Noted α} (h : Located read) {part : Section}
    {note : Note} (hnote : note ∈ (read part).notes) : part <+: note.part := by
  rw [h part] at hnote
  obtain ⟨inner, -, rfl⟩ := List.mem_map.mp hnote
  exact List.prefix_append part inner.part

end Noted

open Noted

/-! ## §3. Sections. -/

/-- Each reader of the document is located: where its section stands shows in its notes
only. -/
theorem readObject_located (value : Option Json) :
    Located fun part => readObject part value := by
  rcases value with _ | v
  · exact .ofPlain none
  · -- What is missing or null is no object, and nothing is said about it.
    cases v with
    | null => exact .ofPlain none
    | object members => exact .ofPlain (some members)
    | _ => exact .ofSkipped none _

/-- Entries are read in the section that they stand in, under their own names. -/
theorem readEntries_located {α : Type} {read : Section → String → Json → Noted (Option α)}
    (h : ∀ name v, Located fun part => read part name v) (value : Option Json) :
    Located fun part => readEntries part value read := by
  refine (readObject_located value).bind fun members => ?_
  cases members with
  | none => exact .ofPlain []
  | some members => exact .collect (fun m => (h m.1 m.2).inside (.member m.1)) members

/-- Strings are read item by item. -/
theorem readStrings_located (value : Option Json) :
    Located fun part => readStrings part value := by
  rcases value with _ | v
  · exact .ofPlain []
  · cases v with
    | null => exact .ofPlain []
    | array items =>
        refine Located.collect (fun x => ?_) items
        cases x with
        | string s => exact .ofPlain (some s)
        | _ => exact .ofSkipped none _
    | _ => exact .ofSkipped [] _

theorem readPath_located (key : String) (v : Json) :
    Located fun part => readPath part key v := by
  cases v with
  | string target => exact .ofPlain _
  | object body =>
      unfold readPath
      dsimp only
      cases (Members.get? body "path").bind Json.text? with
      | none => exact .ofSkipped none _
      | some target => exact .ofPlain _
  | _ => exact .ofSkipped none _

theorem readPaths_located (value : Option Json) : Located fun part => readPaths part value :=
  readEntries_located readPath_located value

theorem readExported_located (value : Option Json) :
    Located fun part => readExported part value := by
  rcases value with _ | v
  · exact .ofPlain none
  · cases v with
    | null => exact .ofPlain none
    | string name => exact .ofPlain (some name)
    | _ => exact .ofSkipped none _

theorem readShim_located (key : String) (v : Json) :
    Located fun part => readShim part key v := by
  refine (readObject_located (some v)).bind fun body => ?_
  cases body with
  | none => exact .ofPlain none
  | some body =>
      refine (readExported_located _).bind fun exported => ?_
      refine ((readStrings_located _).inside (.member "deps")).bind fun dependencies => ?_
      exact .ofPlain _

theorem readShims_located (value : Option Json) : Located fun part => readShims part value :=
  readEntries_located readShim_located value

theorem readReplacement_located (old : String) (v : Json) :
    Located fun part => readReplacement part old v := by
  cases v with
  | string new => exact .ofPlain _
  | _ => exact .ofSkipped none _

theorem readRemap_located (key : String) (v : Json) :
    Located fun part => readRemap part key v := by
  refine (readObject_located (some v)).bind fun body => ?_
  cases body with
  | none => exact .ofPlain none
  | some body =>
      refine (readEntries_located readReplacement_located _).bind fun replacements => ?_
      exact .ofPlain _

theorem readRemaps_located (value : Option Json) : Located fun part => readRemaps part value :=
  readEntries_located readRemap_located value

theorem readBundle_located (id : String) (v : Json) :
    Located fun part => readBundle part id v :=
  (readStrings_located (some v)).bind fun _ => .ofPlain _

theorem readBundles_located (value : Option Json) :
    Located fun part => readBundles part value :=
  readEntries_located readBundle_located value

/-! ## §4. Overrides. -/

/-- An override is located as a whole, with the sections inside it. -/
theorem readOverride_located (key : Option String) (v : Json) :
    Located fun part => readOverride part key v := by
  refine (readObject_located (some v)).bind fun body => ?_
  cases body with
  | none => exact .ofPlain none
  | some body =>
      cases hid : overrideId? key body with
      | none =>
          simp only [hid]
          exact .ofSkipped none _
      | some id =>
          simp only [hid]
          refine ((readPaths_located _).inside (.member "paths")).bind fun paths => ?_
          refine ((readShims_located _).inside (.member "shim")).bind fun shims => ?_
          refine ((readRemaps_located _).inside (.member "map")).bind fun remaps => ?_
          refine ((readStrings_located _).inside (.member "bundledScripts")).bind fun scripts => ?_
          exact .ofPlain _

/-- So an override may be read on its own, and its notes be moved into the document. -/
theorem readOverride_eq_under (part : Section) (key : Option String) (v : Json) :
    readOverride part key v = (readOverride [] key v).under part :=
  readOverride_located key v part

theorem readOverrides_located (value : Option Json) :
    Located fun part => readOverrides part value := by
  rcases value with _ | v
  · exact .ofPlain []
  · cases v with
    | null => exact .ofPlain []
    | array items =>
        exact .collect (fun entry : Json × Nat =>
          (readOverride_located none entry.1).inside (.item entry.2)) items.zipIdx
    | object members =>
        exact .collect (fun m : String × Json =>
          (readOverride_located (some m.1) m.2).inside (.member m.1)) members
    | _ => exact .ofSkipped [] _

/-! ## §5. Documents. -/

/-- Each section of the collection comes from one member of the document. -/
theorem value_readDocument (source : String) (document : Members) :
    (readDocument source document).value = {
      source := some source
      paths := (readPaths [.member "paths"] (Members.get? document "paths")).value
      bundlePaths := (readPaths [.member "bundlePaths"] (Members.get? document "bundlePaths")).value
      shims := (readShims [.member "shim"] (Members.get? document "shim")).value
      remaps := (readRemaps [.member "map"] (Members.get? document "map")).value
      bundles := (readBundles [.member "bundles"] (Members.get? document "bundles")).value
      overrides := (readOverrides [.member "overrides"]
        (Members.get? document "overrides")).value } := rfl

/-- What is noted while a section of a document is read from the value of its member. -/
def DocumentPart.notes (value : Option Json) : DocumentPart → List Note
  | .paths => (readPaths [.member "paths"] value).notes
  | .bundlePaths => (readPaths [.member "bundlePaths"] value).notes
  | .shims => (readShims [.member "shim"] value).notes
  | .remaps => (readRemaps [.member "map"] value).notes
  | .bundles => (readBundles [.member "bundles"] value).notes
  | .overrides => (readOverrides [.member "overrides"] value).notes

/-- A document with a single section has notes on that section only. -/
theorem notes_readValues_alone (source : String) (part : DocumentPart) (value : Option Json) :
    (readValues source (part.alone value)).notes = part.notes value := by
  have hpaths : ∀ part, readPaths part none = .plain [] := fun _ => rfl
  have hshims : ∀ part, readShims part none = .plain [] := fun _ => rfl
  have hremaps : ∀ part, readRemaps part none = .plain [] := fun _ => rfl
  have hbundles : ∀ part, readBundles part none = .plain [] := fun _ => rfl
  have hoverrides : ∀ part, readOverrides part none = .plain [] := fun _ => rfl
  -- Sections that are missing are empty, and leave no notes.
  cases part <;>
    simp [readValues, DocumentPart.alone, DocumentPart.notes, bind, pure, Noted.andThen,
      Noted.plain, hpaths, hshims, hremaps, hbundles, hoverrides]

/-- The notes of a document are those of its sections, one after the other. -/
theorem notes_readDocument (source : String) (document : Members) :
    (readDocument source document).notes
      = DocumentPart.all.flatMap fun part =>
          part.notes (Members.get? document part.member) := by
  rw [readDocument_eq, notes_readValues]
  simp only [notes_readValues_alone]

/-- A note of a section names a part of the member that the section is read from. -/
theorem DocumentPart.prefix_of_mem_notes {part : DocumentPart} {value : Option Json} {note : Note}
    (h : note ∈ part.notes value) : [.member part.member] <+: note.part := by
  cases part with
  | paths => exact (readPaths_located value).prefix_of_mem h
  | bundlePaths => exact (readPaths_located value).prefix_of_mem h
  | shims => exact (readShims_located value).prefix_of_mem h
  | remaps => exact (readRemaps_located value).prefix_of_mem h
  | bundles => exact (readBundles_located value).prefix_of_mem h
  | overrides => exact (readOverrides_located value).prefix_of_mem h

end AmdKit.Loader
