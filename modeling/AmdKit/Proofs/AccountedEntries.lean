/-
  AmdKit.Proofs.AccountedEntries
  ────────────────────────────────
  **EVERY ENTRY IS READ OR NAMED.**

  What is wrong with an entry is no reason to give up the document, but nothing
  should be left out without a word:

      held by the collection, or named by a warning  ↔  not overlooked

  The entries that are overlooked are the shims, consumers and overrides that are
  `null`.  All other entries are accounted for, those inside of overrides too; so
  without a warning they have all been read.
-/
import AmdKit.Proofs.DocumentEntries

namespace AmdKit.Loader

open Json (Members)

/-! ## §1. Overrides and their places. -/

/-- The name of the member that a step leads to. -/
def Step.name? : Step → Option String
  | .member name => some name
  | .item _ => none

/-- The steps from the section of the overrides to each of them. -/
def overridePlaces (document : Members) : List Step :=
  match Members.get? document "overrides" with
  | some (.array items) => items.zipIdx.map fun e => .item e.2
  | some (.object members) => members.map fun m => .member m.1
  | _ => []

/-- Read the override at a place. -/
def readOverrideAt (document : Members) (place : Step) : Noted (Option Override) :=
  match valueAt? (.object document) [.member "overrides", place] with
  | some v => readOverride [.member "overrides", place] place.name? v
  | none => .plain none

/-- The override that stands at a place, if it can be read. -/
def overrideAt? (document : Members) (place : Step) : Option Override :=
  (readOverrideAt document place).value

/-- The override tells what the value at its place tells: which bundle it belongs to,
and the scripts for which it holds. -/
def Override.Tells (o : Override) (place : Step) (v : Json) : Prop :=
  ∃ body, v = .object body
    ∧ some o.bundleId = place.name?.or ((Members.get? body "bundleId").bind Json.text?)
    ∧ o.scripts = textsOf (Members.get? body "bundledScripts")

/-- The sections that the override has in common with a document. -/
def Override.scope (o : Override) : Scope := ⟨o.paths, o.shims, o.remaps⟩

section

variable {document : Members} {place : Step} {v : Json}

theorem readOverrideAt_of_valueAt?
    (hv : valueAt? (.object document) [.member "overrides", place] = some v) :
    readOverrideAt document place
      = readOverride ([.member "overrides"] ++ [place]) place.name? v := by
  unfold readOverrideAt
  rw [hv]
  rfl

/-- Overrides are read place by place, if there is any place. -/
theorem readOverrides_eq_collect (hdocument : (Json.object document).Distinct) {v : Json}
    (hv : Members.get? document "overrides" = some v)
    (hkind : (∃ items, v = .array items) ∨ ∃ members, v = .object members) :
    readOverrides [.member "overrides"] (Members.get? document "overrides")
      = Noted.collect (readOverrideAt document) (overridePlaces document) := by
  -- Places are indices in an array, and names in an object; either way an override is read from
  -- its place.
  rcases hkind with ⟨items, rfl⟩ | ⟨members, rfl⟩
  · have hplaces : overridePlaces document = items.zipIdx.map fun e => .item e.2 := by
      unfold overridePlaces
      rw [hv]
    rw [hv, hplaces]
    refine (Noted.collect_congr_map fun e he => ?_).symm
    refine readOverrideAt_of_valueAt? ?_
    show (Members.get? document "overrides").bind _ = _
    rw [hv]
    show items[e.2]?.bind _ = _
    rw [List.mem_zipIdx_iff_getElem?.mp he]
    rfl
  · have hplaces : overridePlaces document = members.map fun m => .member m.1 := by
      unfold overridePlaces
      rw [hv]
    have hnames := names_nodup_of_distinct (distinct_get? hdocument "overrides" _ hv)
    rw [hv, hplaces]
    refine (Noted.collect_congr_map fun m hm => ?_).symm
    refine readOverrideAt_of_valueAt? ?_
    show (Members.get? document "overrides").bind _ = _
    rw [hv]
    show (Members.get? members m.1).bind _ = _
    rw [get?_of_mem hnames hm]
    rfl

/-- A place with a value is one of the places. -/
theorem mem_overridePlaces
    (hv : valueAt? (.object document) [.member "overrides", place] = some v) :
    place ∈ overridePlaces document ∧ ∃ w, Members.get? document "overrides" = some w
      ∧ ((∃ items, w = .array items) ∨ ∃ members, w = .object members) := by
  obtain ⟨_, w, ⟨⟩, hw, hv⟩ := valueAt?_member_eq_some hv
  unfold overridePlaces
  rw [hw]
  cases place with
  | member id =>
      obtain ⟨members, _, rfl, hid, ⟨⟩⟩ := valueAt?_member_eq_some hv
      exact ⟨List.mem_map.mpr ⟨(id, v), mem_members_of_get? hid, rfl⟩, _, rfl, Or.inr ⟨_, rfl⟩⟩
  | item index =>
      obtain ⟨items, _, rfl, hitem, ⟨⟩⟩ := valueAt?_item_eq_some hv
      exact ⟨List.mem_map.mpr ⟨(v, index), List.mem_zipIdx_iff_getElem?.mpr hitem, rfl⟩, _, rfl,
        Or.inl ⟨_, rfl⟩⟩

/-- The overrides of a document are those that can be read at its places, in order. -/
theorem value_readOverrides (hdocument : (Json.object document).Distinct) :
    (readOverrides [.member "overrides"] (Members.get? document "overrides")).value
      = (overridePlaces document).filterMap (overrideAt? document) := by
  by_cases hkind : ∃ w, Members.get? document "overrides" = some w
      ∧ ((∃ items, w = .array items) ∨ ∃ members, w = .object members)
  · obtain ⟨w, hw, hkind⟩ := hkind
    rw [readOverrides_eq_collect hdocument hw hkind, Noted.value_collect]
    rfl
  · -- Anything else has no places, and gives no overrides.
    unfold overridePlaces
    cases hw : Members.get? document "overrides" with
    | none => rfl
    | some w =>
        cases w with
        | array items => exact absurd ⟨_, hw, Or.inl ⟨_, rfl⟩⟩ hkind
        | object members => exact absurd ⟨_, hw, Or.inr ⟨_, rfl⟩⟩ hkind
        | _ => rfl

/-- The notes inside of a place are those that are taken while its override is read. -/
theorem mem_notes_readOverrides_iff (hdocument : (Json.object document).Distinct)
    (hv : valueAt? (.object document) [.member "overrides", place] = some v) {note : Note}
    {inner : Section} (haround : note.part <+: .member "overrides" :: place :: inner) :
    note ∈ (readOverrides [.member "overrides"] (Members.get? document "overrides")).notes
      ↔ note ∈ (readOverride ([.member "overrides"] ++ [place]) place.name? v).notes := by
  obtain ⟨hplace, w, hw, hkind⟩ := mem_overridePlaces hv
  rw [readOverrides_eq_collect hdocument hw hkind, Noted.notes_collect, List.mem_flatMap,
      ← readOverrideAt_of_valueAt? hv]
  constructor
  · rintro ⟨other, hother, hnote⟩
    cases hvalue : valueAt? (.object document) [.member "overrides", other] with
    | none =>
        unfold readOverrideAt at hnote
        rw [hvalue] at hnote
        exact absurd hnote List.not_mem_nil
    | some x =>
        have hinside := hnote
        rw [readOverrideAt_of_valueAt? hvalue] at hinside
        obtain rfl : other = place := step_eq_of_around
          ((readOverride_located _ _).prefix_of_mem hinside) haround
        exact hnote
  · intro hnote
    exact ⟨place, hplace, hnote⟩

end

section

variable {part : Section} {key : Option String} {body : Members} {o : Override}

theorem readOverride_of_no_id (hid : overrideId? key body = none) :
    readOverride part key (.object body) = .skipped none part .missingBundleId := by
  unfold readOverride
  rw [readObject, Noted.plain_bind]
  simp only [hid]

/-- An override with an id is read like a document, and its scripts like any list. -/
theorem readOverride_of_id {id : String} (hid : overrideId? key body = some id) :
    readOverride part key (.object body)
      = ⟨some ⟨id, (readScope part body).value.paths, (readScope part body).value.shims,
          (readScope part body).value.remaps, textsOf (Members.get? body "bundledScripts")⟩,
        (readScope part body).notes ++ (readStrings (part ++ [.member "bundledScripts"])
          (Members.get? body "bundledScripts")).notes⟩ := by
  rw [← value_readStrings (part ++ [.member "bundledScripts"])]
  unfold readOverride
  rw [readObject, Noted.plain_bind]
  simp only [hid]
  show Noted.mk _ (_ ++ (_ ++ (_ ++ (_ ++ [])))) = Noted.mk _ ((_ ++ (_ ++ (_ ++ []))) ++ _)
  simp only [List.append_nil, List.append_assoc]
  rfl

theorem object_of_value_readOverride {v : Json} (h : (readOverride part key v).value = some o) :
    ∃ body, v = .object body ∧ overrideId? key body = some o.bundleId := by
  cases v with
  | object body =>
      rw [value_readOverride] at h
      obtain ⟨id, hid, rfl⟩ := Option.map_eq_some_iff.mp h
      exact ⟨body, rfl, hid⟩
  | _ => cases h

end

/-! ## §2. Entries of a document. -/

/-- An entry of a document. -/
inductive DocumentEntry where
  /-- An entry of the sections that overrides have, too. -/
  | common (e : ScopeEntry)
  /-- Where a bundle is served from. -/
  | bundlePath (key : String)
  /-- A bundle. -/
  | bundle (id : String)
  /-- A module of a bundle. -/
  | module (id : String) (index : Nat)
  /-- An override. -/
  | override (place : Step)
  /-- An entry inside of an override. -/
  | nested (place : Step) (e : ScopeEntry)
  /-- A script of an override. -/
  | script (place : Step) (index : Nat)

namespace DocumentEntry

/-- Where the entry stands in the document. -/
def part : DocumentEntry → Section
  | common e => e.part
  | bundlePath key => [.member "bundlePaths", .member key]
  | bundle id => [.member "bundles", .member id]
  | module id index => [.member "bundles", .member id, .item index]
  | override place => [.member "overrides", place]
  | nested place e => .member "overrides" :: place :: e.part
  | script place index => [.member "overrides", place, .member "bundledScripts", .item index]

/-- The collection tells what the entry tells, the value of which is given.  What stands
in an override is told by the override that was read at the same place. -/
def Held (c : Collection) (document : Members) (v : Json) : DocumentEntry → Prop
  | common e => e.Held ⟨c.paths, c.shims, c.remaps⟩ v
  | bundlePath key => ∃ p ∈ c.bundlePaths, p.Tells key v
  | bundle id => ∃ b ∈ c.bundles, b.Tells id v
  | module id _ => ∃ b ∈ c.bundles, b.bundleId = id ∧ ∃ text ∈ b.modules, v = .string text
  | override place => ∃ o ∈ c.overrides, overrideAt? document place = some o ∧ o.Tells place v
  | nested place e =>
    ∃ o ∈ c.overrides, overrideAt? document place = some o ∧ e.Held o.scope v
  | script place _ =>
    ∃ o ∈ c.overrides, overrideAt? document place = some o ∧ ∃ text ∈ o.scripts, v = .string text

/-- The entry should be an object and is `null`.  In an override that can not be read,
that does not count. -/
def Overlooked (document : Members) (v : Json) : DocumentEntry → Prop
  | common e => e.isObject = true ∧ v = .null
  | override _ => v = .null
  | nested place e => (e.isObject = true ∧ v = .null) ∧ (overrideAt? document place).isSome
  | _ => False

end DocumentEntry

/-- A warning names the part or one around it. -/
def Outcome.Names (outcome : Outcome) (part : Section) : Prop :=
  ∃ warning ∈ outcome.warnings, warning.note.part <+: part

/-! ## §3. Entries of a document that is read. -/

section

variable {name : String} {document : Members}

theorem names_readOutcome_iff {part : Section} :
    (readOutcome name document).Names part
      ↔ ∃ (s : DocumentPart) (note : Note),
          note ∈ s.notes (Members.get? document s.member) ∧ note.part <+: part := by
  have hall : ∀ s : DocumentPart, s ∈ DocumentPart.all := by
    intro s
    cases s <;> decide
  unfold Outcome.Names readOutcome
  simp only [notes_readDocument, List.mem_map, List.mem_flatMap]
  constructor
  · rintro ⟨_, ⟨note, ⟨s, -, hnote⟩, rfl⟩, haround⟩
    exact ⟨s, note, hnote, haround⟩
  · rintro ⟨s, note, hnote, haround⟩
    exact ⟨_, ⟨note, ⟨s, hall s, hnote⟩, rfl⟩, haround⟩

/-- What a section accounts for, its document accounts for. -/
theorem Noted.Accounts.ofSection {α : Type} {x : Noted (List α)} {part : Section}
    {tells : α → Prop} (h : x.Accounts part tells) (s : DocumentPart)
    (hnotes : x.notes = s.notes (Members.get? document s.member)) :
    (∃ a ∈ x.value, tells a) ∨ (readOutcome name document).Names part :=
  h.imp_right fun ⟨note, hnote, haround⟩ =>
    names_readOutcome_iff.mpr ⟨s, note, hnotes ▸ hnote, haround⟩

/-- The overrides that can be read at their places are those of the collection. -/
theorem mem_overrides_readOutcome (hdocument : (Json.object document).Distinct) {place : Step}
    {v : Json} (hv : valueAt? (.object document) [.member "overrides", place] = some v)
    {o : Override} (ho : overrideAt? document place = some o) :
    o ∈ (readOutcome name document).collection.overrides := by
  show o ∈ (readOverrides [.member "overrides"] (Members.get? document "overrides")).value
  rw [value_readOverrides hdocument]
  exact List.mem_filterMap.mpr ⟨place, (mem_overridePlaces hv).1, ho⟩

theorem names_of_mem_readOverride (hdocument : (Json.object document).Distinct) {place : Step}
    {v : Json} (hv : valueAt? (.object document) [.member "overrides", place] = some v)
    {note : Note}
    (hnote : note ∈ (readOverride ([.member "overrides"] ++ [place]) place.name? v).notes)
    {inner : Section} (haround : note.part <+: .member "overrides" :: place :: inner) :
    (readOutcome name document).Names (.member "overrides" :: place :: inner) :=
  names_readOutcome_iff.mpr ⟨.overrides, note,
    (mem_notes_readOverrides_iff hdocument hv haround).mpr hnote, haround⟩

/-- An object among the overrides is read as one, or it is named for want of an id. -/
theorem override_cases (hdocument : (Json.object document).Distinct) {place : Step}
    {body : Members}
    (hv : valueAt? (.object document) [.member "overrides", place] = some (.object body)) :
    (∃ id, overrideId? place.name? body = some id)
      ∨ ∀ inner, (readOutcome name document).Names (.member "overrides" :: place :: inner) := by
  cases hid : overrideId? place.name? body with
  | some id => exact Or.inl ⟨id, rfl⟩
  | none =>
      have hnote : (⟨[.member "overrides", place], .missingBundleId⟩ : Note)
          ∈ (readOverride ([.member "overrides"] ++ [place]) place.name? (.object body)).notes := by
        rw [readOverride_of_no_id hid]
        exact List.mem_singleton_self _
      exact Or.inr fun inner => names_of_mem_readOverride hdocument hv hnote
        (List.prefix_append [.member "overrides", place] inner)

/-- What is read of an override with an id is in the collection. -/
theorem exists_override_of_id (hdocument : (Json.object document).Distinct) {place : Step}
    {body : Members} {id : String}
    (hv : valueAt? (.object document) [.member "overrides", place] = some (.object body))
    (hid : overrideId? place.name? body = some id) :
    ∃ o ∈ (readOutcome name document).collection.overrides,
      overrideAt? document place = some o ∧ o.bundleId = id
        ∧ o.scope = (readScope [.member "overrides", place] body).value
        ∧ o.scripts = textsOf (Members.get? body "bundledScripts") := by
  have hread := readOverrideAt_of_valueAt? hv
  rw [readOverride_of_id hid] at hread
  have ho : overrideAt? document place = _ := congrArg Noted.value hread
  exact ⟨_, mem_overrides_readOutcome hdocument hv ho, ho, rfl, rfl, rfl⟩

namespace DocumentEntry

variable {e : DocumentEntry} {v : Json}

theorem accounts_common {e : ScopeEntry} (hv : valueAt? (.object document) e.part = some v)
    (hseen : ¬ (e.isObject = true ∧ v = .null)) :
    (DocumentEntry.common e).Held (readOutcome name document).collection document v
      ∨ (readOutcome name document).Names e.part := by
  have hentry : e.Held (readScope [] document).value v
      ∨ ∃ note ∈ (readScope [] document).notes, note.part <+: e.part :=
    ScopeEntry.accounts hv hseen
  refine hentry.imp_right fun ⟨note, hnote, haround⟩ => names_readOutcome_iff.mpr ?_
  rcases mem_notes_readScope_iff.mp hnote with hnote | hnote | hnote
  · exact ⟨.paths, note, hnote, haround⟩
  · exact ⟨.shims, note, hnote, haround⟩
  · exact ⟨.remaps, note, hnote, haround⟩

theorem accounts_override (hdocument : (Json.object document).Distinct) {place : Step}
    (hv : valueAt? (.object document) [.member "overrides", place] = some v) (hnull : v ≠ .null) :
    (DocumentEntry.override place).Held (readOutcome name document).collection document v
      ∨ (readOutcome name document).Names [.member "overrides", place] := by
  rcases readObject_cases v with rfl | ⟨body, rfl⟩ | ⟨reason, hreason⟩
  · exact absurd rfl hnull
  · rcases override_cases hdocument hv with ⟨id, hid⟩ | hnames
    · obtain ⟨o, hmem, ho, rfl, -, hscripts⟩ := exists_override_of_id hdocument hv hid
      refine Or.inl ⟨o, hmem, ho, body, rfl, ?_, hscripts⟩
      exact (Option.filter_eq_some_iff.mp hid).1.symm
    · exact Or.inr (hnames [])
  · have hnote : (⟨[.member "overrides", place], reason⟩ : Note)
        ∈ (readOverride ([.member "overrides"] ++ [place]) place.name? v).notes := by
      unfold readOverride
      rw [hreason]
      exact List.mem_singleton_self _
    exact Or.inr (names_of_mem_readOverride hdocument hv hnote List.prefix_rfl)

theorem accounts_nested (hdocument : (Json.object document).Distinct) {place : Step}
    {e : ScopeEntry} {body : Members}
    (hbody : valueAt? (.object document) [.member "overrides", place] = some (.object body))
    (hv : valueAt? (.object body) e.part = some v)
    (hseen : ¬ ((e.isObject = true ∧ v = .null) ∧ (overrideAt? document place).isSome)) :
    (DocumentEntry.nested place e).Held (readOutcome name document).collection document v
      ∨ (readOutcome name document).Names (.member "overrides" :: place :: e.part) := by
  rcases override_cases hdocument hbody with ⟨id, hid⟩ | hnames
  · obtain ⟨o, hmem, ho, -, hscope, -⟩ := exists_override_of_id hdocument hbody hid
    have hnull : ¬ (e.isObject = true ∧ v = .null) := fun h => hseen ⟨h, ho ▸ rfl⟩
    rcases e.accounts hv hnull with hheld | ⟨note, hnote, haround⟩
    · refine Or.inl ⟨o, hmem, ho, ?_⟩
      rw [hscope]
      exact hheld
    · refine Or.inr (names_of_mem_readOverride hdocument hbody ?_ haround)
      rw [readOverride_of_id hid]
      exact List.mem_append_left _ hnote
  · exact Or.inr (hnames e.part)

theorem accounts_script (hdocument : (Json.object document).Distinct) {place : Step}
    {body : Members} {items : List Json}
    (hbody : valueAt? (.object document) [.member "overrides", place] = some (.object body))
    (hitems : Members.get? body "bundledScripts" = some (.array items)) (hv : v ∈ items)
    (index : Nat) :
    (DocumentEntry.script place index).Held (readOutcome name document).collection document v
      ∨ (readOutcome name document).Names
        [.member "overrides", place, .member "bundledScripts", .item index] := by
  rcases override_cases hdocument hbody with ⟨id, hid⟩ | hnames
  · obtain ⟨o, hmem, ho, -, -, hscripts⟩ := exists_override_of_id hdocument hbody hid
    rcases readStrings_accounts [.member "overrides", place, .member "bundledScripts"] hv with
      ⟨text, htext, htold⟩ | ⟨note, hnote, haround⟩
    · rw [value_readStrings, ← hitems, ← hscripts] at htext
      exact Or.inl ⟨o, hmem, ho, text, htext, htold⟩
    · refine Or.inr (names_of_mem_readOverride hdocument hbody ?_
        (haround.trans (List.prefix_append _ [Step.item index])))
      rw [readOverride_of_id hid, hitems]
      exact List.mem_append_right _ hnote
  · exact Or.inr (hnames _)

/-- An entry inside of an override is an entry of an object. -/
theorem valueAt?_nested {place : Step} {e : ScopeEntry}
    (hv : valueAt? (.object document) (DocumentEntry.nested place e).part = some v) :
    ∃ body, valueAt? (.object document) [.member "overrides", place] = some (.object body)
      ∧ valueAt? (.object body) e.part = some v := by
  have hinside : valueAt? (.object document) ([.member "overrides", place] ++ e.part) = some v := hv
  rw [valueAt?_append] at hinside
  obtain ⟨w, hplace, hw⟩ := Option.bind_eq_some_iff.mp hinside
  obtain ⟨body, rfl⟩ := e.object_of_valueAt? hw
  exact ⟨body, hplace, hw⟩

/-- **An entry that is not overlooked is held or named.** -/
theorem accounts (hdocument : (Json.object document).Distinct)
    (hv : valueAt? (.object document) e.part = some v) (hseen : ¬ e.Overlooked document v) :
    e.Held (readOutcome name document).collection document v
      ∨ (readOutcome name document).Names e.part := by
  -- Entries that overrides have too are accounted for by the scope; the others by their own
  -- reader.
  cases e with
  | common e => exact accounts_common hv hseen
  | bundlePath key =>
      obtain ⟨members, w, hsection, hw, ⟨⟩⟩ := valueAt?_entry hv
      have hentry : (readPaths [.member "bundlePaths"] (some (.object members))).Accounts
          [.member "bundlePaths", .member key] _ := readPaths_accounts hw
      rw [← hsection] at hentry
      exact hentry.ofSection .bundlePaths rfl
  | bundle id =>
      obtain ⟨members, w, hsection, hw, ⟨⟩⟩ := valueAt?_entry hv
      have hentry : ∃ b ∈ (readBundles [.member "bundles"] (some (.object members))).value,
          b.Tells id v := readBundles_accounts hw
      rw [← hsection] at hentry
      exact Or.inl hentry
  | module id index =>
      obtain ⟨members, w, hsection, hw, hv⟩ := valueAt?_entry hv
      obtain ⟨items, _, rfl, hitem, ⟨⟩⟩ := valueAt?_item_eq_some hv
      have hentry : (readBundles [.member "bundles"] (some (.object members))).Accounts
          [.member "bundles", .member id, .item index] _ :=
        readBundles_accounts_item hw (List.mem_of_getElem? hitem) index
      rw [← hsection] at hentry
      exact hentry.ofSection .bundles rfl
  | override place => exact accounts_override hdocument hv hseen
  | nested place e =>
      obtain ⟨body, hplace, hw⟩ := valueAt?_nested hv
      exact accounts_nested hdocument hplace hw hseen
  | script place index =>
      have hstep : valueAt? (.object document) ([.member "overrides", place]
          ++ [.member "bundledScripts", .item index]) = some v := hv
      rw [valueAt?_append] at hstep
      obtain ⟨w, hplace, hw⟩ := Option.bind_eq_some_iff.mp hstep
      obtain ⟨body, scripts, rfl, hscripts, hw⟩ := valueAt?_member_eq_some hw
      obtain ⟨items, _, rfl, hitem, ⟨⟩⟩ := valueAt?_item_eq_some hw
      exact accounts_script hdocument hplace hscripts (List.mem_of_getElem? hitem) index

/-! ## §4. Overlooked entries. -/

theorem not_held_of_overlooked (h : e.Overlooked document v) (c : Collection) :
    ¬ e.Held c document v := by
  cases e with
  | common e =>
      obtain ⟨he, rfl⟩ := h
      exact e.not_held_null he _
  | override place =>
      obtain rfl := h
      rintro ⟨o, -, -, body, hbody, -⟩
      cases hbody
  | nested place e =>
      obtain ⟨⟨he, rfl⟩, -⟩ := h
      rintro ⟨o, -, -, hheld⟩
      exact e.not_held_null he _ hheld
  | _ => exact h.elim

theorem not_names_common {e : ScopeEntry} (hdocument : (Json.object document).Distinct)
    (he : e.isObject = true) (hv : valueAt? (.object document) e.part = some .null) :
    ¬ (readOutcome name document).Names e.part := by
  have hscope : ∀ note ∈ (readScope [] document).notes, ¬ note.part <+: e.part :=
    e.not_noted_null hdocument he hv
  intro hnames
  obtain ⟨s, note, hnote, haround⟩ := names_readOutcome_iff.mp hnames
  cases s with
  | paths => exact hscope note (mem_notes_readScope_iff.mpr (Or.inl hnote)) haround
  | shims => exact hscope note (mem_notes_readScope_iff.mpr (Or.inr (Or.inl hnote))) haround
  | remaps => exact hscope note (mem_notes_readScope_iff.mpr (Or.inr (Or.inr hnote))) haround
  | _ =>
      -- The note names a part of a section that scopes do not have.
      have hsection := (DocumentPart.prefix_of_mem_notes hnote).trans haround
      cases e <;> simp [ScopeEntry.part, DocumentPart.member] at hsection

/-- A note around what stands in an override is one that is taken while it is read. -/
theorem mem_readOverride_of_names (hdocument : (Json.object document).Distinct) {place : Step}
    (hv : valueAt? (.object document) [.member "overrides", place] = some v) {inner : Section}
    (hnames : (readOutcome name document).Names (.member "overrides" :: place :: inner)) :
    ∃ note ∈ (readOverride ([.member "overrides"] ++ [place]) place.name? v).notes,
      note.part <+: .member "overrides" :: place :: inner := by
  obtain ⟨s, note, hnote, haround⟩ := names_readOutcome_iff.mp hnames
  have hsection := (DocumentPart.prefix_of_mem_notes hnote).trans haround
  rw [List.cons_prefix_cons] at hsection
  obtain rfl : s = .overrides := DocumentPart.member_injective (Step.member.inj hsection.1)
  exact ⟨note, (mem_notes_readOverrides_iff hdocument hv haround).mp hnote, haround⟩

theorem not_names_nested (hdocument : (Json.object document).Distinct) {place : Step}
    {e : ScopeEntry} {body : Members}
    (hbody : valueAt? (.object document) [.member "overrides", place] = some (.object body))
    (he : e.isObject = true) (hv : valueAt? (.object body) e.part = some .null)
    (hoverride : (overrideAt? document place).isSome) :
    ¬ (readOutcome name document).Names (.member "overrides" :: place :: e.part) := by
  intro hnames
  obtain ⟨note, hnote, haround⟩ := mem_readOverride_of_names hdocument hbody hnames
  obtain ⟨o, ho⟩ := Option.isSome_iff_exists.mp hoverride
  unfold overrideAt? at ho
  rw [readOverrideAt_of_valueAt? hbody] at ho
  obtain ⟨_, ⟨⟩, hid⟩ := object_of_value_readOverride ho
  rw [readOverride_of_id hid] at hnote
  rcases List.mem_append.mp hnote with hnote | hnote
  · exact e.not_noted_null (distinct_valueAt? hdocument hbody) he hv note hnote haround
  · have hscripts := ((readStrings_located _).prefix_of_mem hnote).trans haround
    cases e <;> simp [ScopeEntry.part] at hscripts

/-- **An entry that is overlooked is not named.** -/
theorem not_names_of_overlooked (hdocument : (Json.object document).Distinct)
    (hv : valueAt? (.object document) e.part = some v) (h : e.Overlooked document v) :
    ¬ (readOutcome name document).Names e.part := by
  cases e with
  | common e =>
      obtain ⟨he, rfl⟩ := h
      exact not_names_common hdocument he hv
  | override place =>
      obtain rfl := h
      intro hnames
      obtain ⟨note, hnote, -⟩ := mem_readOverride_of_names hdocument hv hnames
      exact absurd hnote List.not_mem_nil
  | nested place e =>
      obtain ⟨⟨he, rfl⟩, hoverride⟩ := h
      obtain ⟨body, hplace, hw⟩ := valueAt?_nested hv
      exact not_names_nested hdocument hplace he hw hoverride
  | _ => exact h.elim

end DocumentEntry

end

/-- **Every entry is read or named.**  The overrides that are read are those that can be
read at their places; an entry is held by the collection or named by a warning just if it
is not overlooked; without a warning, all that are not overlooked are held. -/
theorem parse_accounts_for_entries {text : String} {document : Members} (name : String)
    (hread : Json.parse text = .ok (.object document)) :
    ∃ outcome, parse text name = .ok outcome
      ∧ outcome.collection.overrides
          = (overridePlaces document).filterMap (overrideAt? document)
      ∧ (∀ (e : DocumentEntry) (v : Json), valueAt? (.object document) e.part = some v →
          (e.Held outcome.collection document v ∨ outcome.Names e.part
            ↔ ¬ e.Overlooked document v))
      ∧ (outcome.warnings = [] →
          ∀ (e : DocumentEntry) (v : Json), valueAt? (.object document) e.part = some v →
            ¬ e.Overlooked document v → e.Held outcome.collection document v) := by
  have hdocument := Json.distinct_of_parse hread
  refine ⟨readOutcome name document, parse_of_object hread name, value_readOverrides hdocument,
    fun e v hv => ⟨?_, e.accounts hdocument hv⟩, fun hwarnings e v hv hseen => ?_⟩
  · rintro (hheld | hnames) hoverlooked
    · exact DocumentEntry.not_held_of_overlooked hoverlooked _ hheld
    · exact DocumentEntry.not_names_of_overlooked hdocument hv hoverlooked hnames
  · rcases e.accounts hdocument hv hseen with hheld | ⟨warning, hwarning, -⟩
    · exact hheld
    · rw [hwarnings] at hwarning
      exact absurd hwarning List.not_mem_nil

/-- A shim that is no object is named, and one that is `null` is not. -/
theorem parse_accounts_for_entries_shim :
    let document : Members := [("paths", .object [("x", .string "y")]),
      ("shim", .object [("a", .null), ("b", .bool true)])]
    ∃ outcome, parse (Json.object document).render "in.json" = .ok outcome
      ∧ ((DocumentEntry.common (.path "x")).Held outcome.collection document (.string "y")
        ∨ outcome.Names [.member "paths", .member "x"])
      ∧ ((DocumentEntry.common (.shim "b")).Held outcome.collection document (.bool true)
        ∨ outcome.Names [.member "shim", .member "b"])
      ∧ ¬ ((DocumentEntry.common (.shim "a")).Held outcome.collection document .null
        ∨ outcome.Names [.member "shim", .member "a"]) := by
  intro document
  have hpaths : Json.Within 126 (.object [("x", .string "y")]) :=
    .object (by decide) (List.forall_mem_singleton.mpr (.string _ _))
  have hshims : Json.Within 126 (.object [("a", .null), ("b", .bool true)]) :=
    .object (by decide)
      (List.forall_mem_cons.mpr ⟨.null _, List.forall_mem_singleton.mpr (.bool _ _)⟩)
  have hdocument : Json.Within 127 (.object document) :=
    .object (by decide) (List.forall_mem_cons.mpr ⟨hpaths, List.forall_mem_singleton.mpr hshims⟩)
  obtain ⟨outcome, hparse, -, haccounts, -⟩ :=
    parse_accounts_for_entries "in.json" (Json.parse_render hdocument).1
  refine ⟨outcome, hparse, ?_, ?_, ?_⟩
  · exact (haccounts (.common (.path "x")) (.string "y") rfl).mpr fun h => absurd h.1 (by decide)
  · exact (haccounts (.common (.shim "b")) (.bool true) rfl).mpr fun h => Json.noConfusion h.2
  · exact fun h => (haccounts (.common (.shim "a")) .null rfl).mp h ⟨rfl, rfl⟩

/-- **A shim that is `null` is lost.** -/
theorem parse_null_shim :
    parse "\x7b\"shim\":\x7b\"a\":null\x7d\x7d" "inline.json"
      = .ok ⟨{ source := some "inline.json" }, []⟩ :=
  eq_ok_of_toOption (by decide +kernel)

end AmdKit.Loader
