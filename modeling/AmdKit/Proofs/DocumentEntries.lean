/-
  AmdKit.Proofs.DocumentEntries
  ────────────────────────────────
  **ENTRIES OF A DOCUMENT.**

  An entry is what a section holds: a member of an object, an item of a list.  It
  has a place in the document, and there are two things that can happen to it:

      held   — the collection says what the entry says
      noted  — a note names the entry, or a part around it

  One of the two happens to every entry of the sections that documents and
  overrides have in common, but for shims and consumers that are `null`: these are
  neither held nor noted.  The reason is that `null` is no fault where a section
  may be missing, and shims and consumers are read as sections are.
-/
import AmdKit.Proofs.AcceptedCollections
import AmdKit.Proofs.Relocation
import Mathlib.Data.List.Basic

namespace AmdKit.Loader

open Json (Members)

/-! ## §1. Parts of a value. -/

/-- The value at a part of a value. -/
def valueAt? : Json → Section → Option Json
  | v, [] => some v
  | .object members, .member name :: inner =>
    (Members.get? members name).bind fun v => valueAt? v inner
  | .array items, .item index :: inner => items[index]?.bind fun v => valueAt? v inner
  | _, _ :: _ => none

/-- A path through a member leads through an object that has it. -/
theorem valueAt?_member_eq_some {v x : Json} {name : String} {inner : Section}
    (h : valueAt? v (.member name :: inner) = some x) :
    ∃ members w, v = .object members ∧ Members.get? members name = some w
      ∧ valueAt? w inner = some x := by
  cases v with
  | object members =>
      obtain ⟨w, hw, hx⟩ := Option.bind_eq_some_iff.mp h
      exact ⟨members, w, rfl, hw, hx⟩
  | _ => cases h

/-- A path through an item leads through an array that has it. -/
theorem valueAt?_item_eq_some {v x : Json} {index : Nat} {inner : Section}
    (h : valueAt? v (.item index :: inner) = some x) :
    ∃ items w, v = .array items ∧ items[index]? = some w ∧ valueAt? w inner = some x := by
  cases v with
  | array items =>
      obtain ⟨w, hw, hx⟩ := Option.bind_eq_some_iff.mp h
      exact ⟨items, w, rfl, hw, hx⟩
  | _ => cases h

/-- One path after the other is both of them. -/
theorem valueAt?_append (v : Json) (outer inner : Section) :
    valueAt? v (outer ++ inner) = (valueAt? v outer).bind fun w => valueAt? w inner := by
  induction outer generalizing v with
  | nil => rfl
  | cons step outer ih =>
      cases step with
      | member name =>
          cases v with
          | object members =>
              show (Members.get? members name).bind _ = ((Members.get? members name).bind _).bind _
              rw [Option.bind_assoc]
              exact congrArg _ (funext fun w => ih w)
          | _ => rfl
      | item index =>
          cases v with
          | array items =>
              show items[index]?.bind _ = (items[index]?.bind _).bind _
              rw [Option.bind_assoc]
              exact congrArg _ (funext fun w => ih w)
          | _ => rfl

/-- Under a name that is there once stands one value. -/
theorem get?_of_mem {members : Members} (h : (members.map Prod.fst).Nodup) {m : String × Json}
    (hm : m ∈ members) : Members.get? members m.1 = some m.2 := by
  induction members with
  | nil => exact absurd hm List.not_mem_nil
  | cons n members ih =>
      rw [List.map_cons, List.nodup_cons] at h
      rw [get?_cons]
      rcases List.mem_cons.mp hm with rfl | hm
      · rw [if_pos rfl]
      · have hne : n.1 ≠ m.1 := fun hname => h.1 (hname ▸ List.mem_map_of_mem hm)
        rw [if_neg hne]
        exact ih h.2 hm

theorem eq_string_of_text? {v : Json} {text : String} (h : v.text? = some text) :
    v = .string text := by
  cases v with
  | string s => rw [Option.some.inj h]
  | _ => cases h

/-- An entry of a section stands in an object that is a member. -/
theorem valueAt?_entry {body : Members} {name key : String} {inner : Section} {x : Json}
    (h : valueAt? (.object body) (.member name :: .member key :: inner) = some x) :
    ∃ members w, Members.get? body name = some (.object members)
      ∧ Members.get? members key = some w ∧ valueAt? w inner = some x := by
  obtain ⟨_, v, ⟨⟩, hv, h⟩ := valueAt?_member_eq_some h
  obtain ⟨members, w, rfl, hw, hx⟩ := valueAt?_member_eq_some h
  exact ⟨members, w, hv, hw, hx⟩

theorem names_nodup_of_distinct {members : Members} (h : (Json.object members).Distinct) :
    (members.map Prod.fst).Nodup := by
  cases h with
  | object hnames _ => exact hnames

/-- Where no name occurs twice in a value, none does inside of it. -/
theorem distinct_valueAt? {v w : Json} (hv : v.Distinct) {part : Section}
    (h : valueAt? v part = some w) : w.Distinct := by
  induction part generalizing v with
  | nil => exact Option.some.inj h ▸ hv
  | cons step part ih =>
      cases step with
      | member name =>
          obtain ⟨members, x, rfl, hx, h⟩ := valueAt?_member_eq_some h
          exact ih (distinct_get? hv name x hx) h
      | item index =>
          obtain ⟨items, x, rfl, hx, h⟩ := valueAt?_item_eq_some h
          cases hv with
          | array hitems => exact ih (hitems x (List.mem_of_getElem? hx)) h

/-- Of two ways that lead on from a part, the one around the other begins as the other. -/
theorem step_eq_of_around {part inner middle : Section} {step step' : Step}
    (h : part ++ [step] <+: middle) (h' : middle <+: part ++ step' :: inner) : step = step' := by
  have hsteps := h.trans h'
  rw [List.prefix_append_right_inj, List.cons_prefix_cons] at hsteps
  exact hsteps.1

/-! ## §2. What an entry says. -/

/-- The strings of a part that should be a list of strings. -/
def textsOf : Option Json → List String
  | some (.array items) => items.filterMap Json.text?
  | _ => []

/-- The path entry says what the member says. -/
def PathEntry.Tells (p : PathEntry) (key : String) (v : Json) : Prop :=
  p.key = key ∧ (v = .string p.target ∧ p.defaultBundle = none
    ∨ ∃ body, v = .object body ∧ Members.get? body "path" = some (.string p.target)
      ∧ p.defaultBundle = (Members.get? body "defaultBundle").bind Json.text?)

/-- The shim says what the member says. -/
def Shim.Tells (s : Shim) (key : String) (v : Json) : Prop :=
  s.forModule = key ∧ ∃ body, v = .object body
    ∧ s.exported = (Members.get? body "exports").bind Json.text?
    ∧ s.dependencies = textsOf (Members.get? body "deps")

/-- The redirected dependencies are those of the member. -/
def Remap.Tells (r : Remap) (key : String) (v : Json) : Prop :=
  r.forModule = key ∧ ∃ body, v = .object body
    ∧ r.replacements = body.filterMap fun m => m.2.text?.map fun new => ⟨m.1, new⟩

/-- The bundle says what the member says. -/
def Bundle.Tells (b : Bundle) (id : String) (v : Json) : Prop :=
  b.bundleId = id ∧ b.modules = textsOf (some v)

/-! ## §3. Reading an entry. -/

/-- Something that was read says this, or a note names the part or one around it. -/
def Noted.Accounts {α : Type} (x : Noted (List α)) (part : Section) (tells : α → Prop) : Prop :=
  (∃ a ∈ x.value, tells a) ∨ ∃ note ∈ x.notes, note.part <+: part

/-- More notes account for no less. -/
theorem Noted.Accounts.of_subset {α : Type} {x : Noted (List α)} {part : Section}
    {tells : α → Prop} {notes : List Note} (h : x.Accounts part tells) (hsub : x.notes ⊆ notes) :
    (∃ a ∈ x.value, tells a) ∨ ∃ note ∈ notes, note.part <+: part :=
  h.imp_right fun ⟨note, hnote, haround⟩ => ⟨note, hsub hnote, haround⟩

section

variable {α : Type} {read : Section → String → Json → Noted (Option α)} {part : Section}
  {members : Members} {name : String} {v : Json}

/-- An entry that is read from a member is among the entries. -/
theorem value_readEntries_of_get? (hv : Members.get? members name = some v) {a : α}
    (ha : (read (part ++ [.member name]) name v).value = some a) :
    a ∈ (readEntries part (some (.object members)) read).value := by
  show a ∈ (Noted.collect _ members).value
  rw [Noted.value_collect, List.mem_filterMap]
  exact ⟨(name, v), mem_members_of_get? hv, ha⟩

/-- The notes on entries are those on their members, one after the other. -/
theorem notes_readEntries : (readEntries part (some (.object members)) read).notes
    = members.flatMap fun m => (read (part ++ [.member m.1]) m.1 m.2).notes := by
  unfold readEntries
  rw [readObject, Noted.plain_bind]
  exact Noted.notes_collect _ members

theorem notes_readEntries_of_get? (hv : Members.get? members name = some v) {note : Note}
    (hnote : note ∈ (read (part ++ [.member name]) name v).notes) :
    note ∈ (readEntries part (some (.object members)) read).notes := by
  rw [notes_readEntries, List.mem_flatMap]
  exact ⟨(name, v), mem_members_of_get? hv, hnote⟩

/-- A section accounts for what its members account for. -/
theorem readEntries_accounts (hv : Members.get? members name = some v) {inner : Section}
    {tells : α → Prop}
    (h : (∃ a, (read (part ++ [.member name]) name v).value = some a ∧ tells a)
      ∨ ∃ note ∈ (read (part ++ [.member name]) name v).notes, note.part <+: inner) :
    (readEntries part (some (.object members)) read).Accounts inner tells := by
  rcases h with ⟨a, ha, htells⟩ | ⟨note, hnote, haround⟩
  · exact Or.inl ⟨a, value_readEntries_of_get? hv ha, htells⟩
  · exact Or.inr ⟨note, notes_readEntries_of_get? hv hnote, haround⟩

/-- A note that names a member, or a part inside of it, is a note of the member. -/
theorem mem_notes_of_readEntries (hread : ∀ name v, Noted.Located fun part => read part name v)
    (hnames : (members.map Prod.fst).Nodup) (hv : Members.get? members name = some v)
    {note : Note} (hnote : note ∈ (readEntries part (some (.object members)) read).notes)
    {inner : Section} (haround : note.part <+: part ++ .member name :: inner) :
    note ∈ (read (part ++ [.member name]) name v).notes := by
  rw [notes_readEntries, List.mem_flatMap] at hnote
  obtain ⟨m, hm, hnote⟩ := hnote
  obtain rfl := Step.member.inj
    (step_eq_of_around ((hread m.1 m.2).prefix_of_mem hnote) haround)
  obtain rfl := Option.some.inj (hv.symm.trans (get?_of_mem hnames hm))
  exact hnote

/-- A member is not noted if it is `null` and that is no fault. -/
theorem not_noted_of_null (hread : ∀ name v, Noted.Located fun part => read part name v)
    (hnull : ∀ part name, (read part name .null).notes = [])
    (hnames : (members.map Prod.fst).Nodup) (hv : Members.get? members name = some .null) :
    ∀ note ∈ (readEntries part (some (.object members)) read).notes,
      ¬ note.part <+: part ++ [.member name] := by
  intro note hnote haround
  have hmember := mem_notes_of_readEntries hread hnames hv hnote haround
  rw [hnull] at hmember
  exact absurd hmember List.not_mem_nil

end

/-- Strings are read from the items that are strings. -/
theorem value_readStrings (part : Section) (value : Option Json) :
    (readStrings part value).value = textsOf value := by
  rcases value with _ | v
  · rfl
  · cases v with
    | array items =>
        show (Noted.collect _ items).value = _
        rw [Noted.value_collect]
        refine List.filterMap_congr fun x _ => ?_
        cases x <;> rfl
    | _ => rfl

theorem notes_readStrings_array (part : Section) (items : List Json) :
    (readStrings part (some (.array items))).notes
      = items.flatMap fun x => (readStrings part (some (.array [x]))).notes := by
  show (Noted.collect _ items).notes = _
  rw [Noted.notes_collect]
  refine List.flatMap_congr fun x _ => ?_
  exact (List.append_nil _).symm

/-- Every item of a list is a string that is kept, or noted. -/
theorem readStrings_accounts (part : Section) {items : List Json} {v : Json} (hv : v ∈ items) :
    (readStrings part (some (.array items))).Accounts part fun text => v = .string text := by
  cases htext : v.text? with
  | some text =>
      refine Or.inl ⟨text, ?_, ?_⟩
      · rw [value_readStrings]
        exact List.mem_filterMap.mpr ⟨v, hv, htext⟩
      · exact eq_string_of_text? htext
  | none =>
      have hitem : (readStrings part (some (.array [v]))).notes
          = [⟨part, .notString (.of v)⟩] := by
        cases v with
        | string text => cases htext
        | _ => rfl
      refine Or.inr ⟨⟨part, .notString (.of v)⟩, ?_, List.prefix_rfl⟩
      rw [notes_readStrings_array, List.mem_flatMap]
      exact ⟨v, hv, hitem ▸ List.mem_singleton_self _⟩

/-- A path is read, or there is a note on it. -/
theorem readPath_accounts (part : Section) (key : String) (v : Json) :
    (∃ p, (readPath part key v).value = some p ∧ p.Tells key v)
      ∨ ∃ note ∈ (readPath part key v).notes, note.part <+: part := by
  cases v with
  | string target => exact Or.inl ⟨_, rfl, rfl, Or.inl ⟨rfl, rfl⟩⟩
  | object body =>
      cases hpath : (Members.get? body "path").bind Json.text? with
      | none =>
          refine Or.inr ⟨⟨part, .missingPath⟩, ?_, List.prefix_rfl⟩
          unfold readPath
          simp only [hpath]
          exact List.mem_singleton_self _
      | some target =>
          have htarget : Members.get? body "path" = some (.string target) := by
            obtain ⟨w, hw, htext⟩ := Option.bind_eq_some_iff.mp hpath
            rw [hw, eq_string_of_text? htext]
          refine Or.inl ⟨⟨key, target, (Members.get? body "defaultBundle").bind Json.text?⟩, ?_,
            rfl, Or.inr ⟨body, rfl, htarget, rfl⟩⟩
          unfold readPath
          simp only [hpath]
          rfl
  | _ => exact Or.inr ⟨⟨part, _⟩, List.mem_singleton_self _, List.prefix_rfl⟩

/-- What should be an object is one, or is `null`, or is noted. -/
theorem readObject_cases (v : Json) :
    v = .null ∨ (∃ members, v = .object members)
      ∨ ∃ reason, ∀ part, readObject part (some v) = .skipped none part reason := by
  cases v with
  | null => exact Or.inl rfl
  | object members => exact Or.inr (Or.inl ⟨members, rfl⟩)
  | _ => exact Or.inr (Or.inr ⟨_, fun _ => rfl⟩)

/-- What is read from an object is read, or the object is noted, or `null`. -/
theorem readObject_accounts {α : Type} {part : Section} {v : Json}
    {next : Option Members → Noted (Option α)} {tells : α → Prop} (hnull : v ≠ .null)
    (hobject : ∀ body, v = .object body →
      ∃ a, (readObject part (some v) >>= next).value = some a ∧ tells a) :
    (∃ a, (readObject part (some v) >>= next).value = some a ∧ tells a)
      ∨ ∃ note ∈ (readObject part (some v) >>= next).notes, note.part <+: part := by
  rcases readObject_cases v with rfl | ⟨body, rfl⟩ | ⟨reason, hreason⟩
  · exact absurd rfl hnull
  · exact Or.inl (hobject body rfl)
  · refine Or.inr ⟨⟨part, reason⟩, ?_, List.prefix_rfl⟩
    rw [hreason]
    exact List.mem_cons_self

section

variable (part : Section) (key : String) (body : Members)

/-- A shim has its exports and its dependencies from two members of its own. -/
theorem readShim_object :
    readShim part key (.object body)
      = ⟨some ⟨key, (readExported part (Members.get? body "exports")).value,
          (readStrings (part ++ [.member "deps"]) (Members.get? body "deps")).value⟩,
        (readExported part (Members.get? body "exports")).notes
          ++ (readStrings (part ++ [.member "deps"]) (Members.get? body "deps")).notes⟩ := by
  show Noted.mk _ ([] ++ (_ ++ (_ ++ []))) = _
  rw [List.append_nil]
  rfl

theorem readRemap_object :
    readRemap part key (.object body)
      = ⟨some ⟨key, (readEntries part (some (.object body)) readReplacement).value⟩,
        (readEntries part (some (.object body)) readReplacement).notes⟩ := by
  show Noted.mk _ ([] ++ (_ ++ [])) = _
  rw [List.append_nil]
  rfl

theorem readBundle_eq (id : String) (v : Json) :
    readBundle part id v
      = ⟨some ⟨id, textsOf (some v)⟩, (readStrings part (some v)).notes⟩ := by
  rw [← value_readStrings part]
  show Noted.mk _ (_ ++ []) = _
  rw [List.append_nil]
  rfl

theorem value_readExported (value : Option Json) :
    (readExported part value).value = value.bind Json.text? := by
  rcases value with _ | v
  · rfl
  · cases v <;> rfl

/-- The shim of an object tells what the object tells. -/
theorem tells_readShim :
    ∃ s, (readShim part key (.object body)).value = some s ∧ s.Tells key (.object body) := by
  rw [readShim_object]
  refine ⟨_, rfl, rfl, body, rfl, ?_, ?_⟩
  · exact value_readExported part _
  · exact value_readStrings _ _

/-- A remap that is an object tells its replacements. -/
theorem tells_readRemap :
    ∃ r, (readRemap part key (.object body)).value = some r ∧ r.Tells key (.object body) := by
  rw [readRemap_object]
  refine ⟨_, rfl, rfl, body, rfl, ?_⟩
  show (Noted.collect _ body).value = _
  rw [Noted.value_collect]
  refine List.filterMap_congr fun m _ => ?_
  cases m.2 <;> rfl

end

/-! ## §4. Reading a section. -/

section

variable {part : Section} {members : Members} {key : String} {v : Json}

/-- A section accounts for each of its members: an entry tells it, or there is a note. -/
theorem readPaths_accounts (hv : Members.get? members key = some v) :
    (readPaths part (some (.object members))).Accounts (part ++ [.member key])
      fun p => p.Tells key v :=
  readEntries_accounts hv (readPath_accounts _ key v)

/-- A shim is read, or noted, or `null`. -/
theorem readShims_accounts (hv : Members.get? members key = some v) (hnull : v ≠ .null) :
    (readShims part (some (.object members))).Accounts (part ++ [.member key])
      fun s => s.Tells key v := by
  refine readEntries_accounts hv (readObject_accounts hnull ?_)
  rintro body rfl
  exact tells_readShim _ key body

/-- And for each dependency of a shim. -/
theorem readShims_accounts_dependency {body : Members} {items : List Json}
    (hbody : Members.get? members key = some (.object body))
    (hitems : Members.get? body "deps" = some (.array items)) (hv : v ∈ items) (index : Nat) :
    (readShims part (some (.object members))).Accounts
      (part ++ [.member key, .member "deps", .item index])
      fun s => s.forModule = key ∧ ∃ text ∈ s.dependencies, v = .string text := by
  refine readEntries_accounts hbody ?_
  rw [readShim_object, hitems]
  rcases readStrings_accounts (part ++ [.member key] ++ [.member "deps"]) hv with
    ⟨text, htext, hv⟩ | ⟨note, hnote, haround⟩
  · exact Or.inl ⟨_, rfl, rfl, text, htext, hv⟩
  · refine Or.inr ⟨note, List.mem_append_right _ hnote, haround.trans ?_⟩
    simp

/-- A consumer is read, or noted, or `null`. -/
theorem readRemaps_accounts (hv : Members.get? members key = some v) (hnull : v ≠ .null) :
    (readRemaps part (some (.object members))).Accounts (part ++ [.member key])
      fun r => r.Tells key v := by
  refine readEntries_accounts hv (readObject_accounts hnull ?_)
  rintro body rfl
  exact tells_readRemap _ key body

/-- And for each replacement of a remap. -/
theorem readRemaps_accounts_replacement {body : Members} {old : String}
    (hbody : Members.get? members key = some (.object body))
    (hv : Members.get? body old = some v) :
    (readRemaps part (some (.object members))).Accounts
      (part ++ [.member key, .member old])
      fun r => r.forModule = key ∧ ∃ new, ⟨old, new⟩ ∈ r.replacements ∧ v = .string new := by
  refine readEntries_accounts hbody ?_
  rw [readRemap_object]
  have hreplacement : (readEntries (part ++ [.member key]) (some (.object body))
      readReplacement).Accounts (part ++ [.member key, .member old])
        fun x => x.old = old ∧ v = .string x.new := by
    refine readEntries_accounts hv ?_
    rw [List.append_assoc]
    cases v with
    | string new => exact Or.inl ⟨⟨old, new⟩, rfl, rfl, rfl⟩
    | _ => exact Or.inr ⟨⟨_, _⟩, List.mem_singleton_self _, List.prefix_rfl⟩
  rcases hreplacement with ⟨x, hx, hold, hv⟩ | ⟨note, hnote, haround⟩
  · refine Or.inl ⟨_, rfl, rfl, x.new, ?_, hv⟩
    rw [← hold]
    exact hx
  · exact Or.inr ⟨note, hnote, haround⟩

/-- A bundle is always read. -/
theorem readBundles_accounts (hv : Members.get? members key = some v) :
    ∃ b ∈ (readBundles part (some (.object members))).value, b.Tells key v := by
  refine ⟨⟨key, textsOf (some v)⟩, value_readEntries_of_get? hv ?_, rfl, rfl⟩
  rw [readBundle_eq]

/-- And for each module of a bundle. -/
theorem readBundles_accounts_item {items : List Json}
    (hitems : Members.get? members key = some (.array items)) (hv : v ∈ items) (index : Nat) :
    (readBundles part (some (.object members))).Accounts (part ++ [.member key, .item index])
      fun b => b.bundleId = key ∧ ∃ text ∈ b.modules, v = .string text := by
  refine readEntries_accounts hitems ?_
  rw [readBundle_eq]
  rcases readStrings_accounts (part ++ [.member key]) hv with
    ⟨text, htext, hv⟩ | ⟨note, hnote, haround⟩
  · rw [value_readStrings] at htext
    exact Or.inl ⟨_, rfl, rfl, text, htext, hv⟩
  · refine Or.inr ⟨note, hnote, haround.trans ?_⟩
    simp

end

/-! ## §5. Scopes. -/

/-- The sections that documents and overrides have in common. -/
structure Scope where
  /-- Where modules are loaded from. -/
  paths : List PathEntry
  /-- How scripts are used as modules. -/
  shims : List Shim
  /-- Redirected dependencies. -/
  remaps : List Remap

/-- Read the sections of a scope from the members of an object. -/
def readScope (part : Section) (body : Members) : Noted Scope := do
  let paths ← readPaths (part ++ [.member "paths"]) (Members.get? body "paths")
  let shims ← readShims (part ++ [.member "shim"]) (Members.get? body "shim")
  let remaps ← readRemaps (part ++ [.member "map"]) (Members.get? body "map")
  return ⟨paths, shims, remaps⟩

/-- The notes on a scope are those on its three sections. -/
theorem mem_notes_readScope_iff {part : Section} {body : Members} {note : Note} :
    note ∈ (readScope part body).notes
      ↔ note ∈ (readPaths (part ++ [.member "paths"]) (Members.get? body "paths")).notes
        ∨ note ∈ (readShims (part ++ [.member "shim"]) (Members.get? body "shim")).notes
        ∨ note ∈ (readRemaps (part ++ [.member "map"]) (Members.get? body "map")).notes := by
  show note ∈ _ ++ (_ ++ (_ ++ [])) ↔ _
  rw [List.append_nil, List.mem_append, List.mem_append]

/-- An entry of a scope. -/
inductive ScopeEntry where
  /-- A path entry. -/
  | path (key : String)
  /-- A shim. -/
  | shim (key : String)
  /-- A dependency of a shim. -/
  | dependency (script : String) (index : Nat)
  /-- A consumer with redirected dependencies. -/
  | remap (key : String)
  /-- A redirected dependency of a consumer. -/
  | replacement (consumer old : String)

namespace ScopeEntry

/-- Where the entry stands in its scope. -/
def part : ScopeEntry → Section
  | path key => [.member "paths", .member key]
  | shim key => [.member "shim", .member key]
  | dependency script index => [.member "shim", .member script, .member "deps", .item index]
  | remap key => [.member "map", .member key]
  | replacement consumer old => [.member "map", .member consumer, .member old]

/-- The entry is read as an object. -/
def isObject : ScopeEntry → Bool
  | shim _ | remap _ => true
  | _ => false

/-- The scope tells what the entry tells, the value of which is given. -/
def Held (s : Scope) (v : Json) : ScopeEntry → Prop
  | path key => ∃ p ∈ s.paths, p.Tells key v
  | shim key => ∃ x ∈ s.shims, x.Tells key v
  | dependency script _ =>
    ∃ x ∈ s.shims, x.forModule = script ∧ ∃ text ∈ x.dependencies, v = .string text
  | remap key => ∃ r ∈ s.remaps, r.Tells key v
  | replacement consumer old =>
    ∃ r ∈ s.remaps, r.forModule = consumer ∧ ∃ new, ⟨old, new⟩ ∈ r.replacements ∧ v = .string new

variable {part : Section} {body : Members} {e : ScopeEntry} {v : Json}

/-- Entries stand in the members of an object. -/
theorem object_of_valueAt? {w : Json} (h : valueAt? w e.part = some v) :
    ∃ members, w = .object members := by
  obtain ⟨name, inner, hpart⟩ : ∃ name inner, e.part = .member name :: inner := by
    cases e <;> exact ⟨_, _, rfl⟩
  rw [hpart] at h
  obtain ⟨members, _, rfl, -, -⟩ := valueAt?_member_eq_some h
  exact ⟨members, rfl⟩

/-- **An entry of a scope is held or noted**, unless it should be an object and is `null`. -/
theorem accounts (hv : valueAt? (.object body) e.part = some v)
    (hnull : ¬ (e.isObject = true ∧ v = .null)) :
    e.Held (readScope part body).value v
      ∨ ∃ note ∈ (readScope part body).notes, note.part <+: part ++ e.part := by
  -- In each case the section is found on the way to the entry, and its reader accounts for it.
  cases e with
  | path key =>
      obtain ⟨members, w, hsection, hw, ⟨⟩⟩ := valueAt?_entry hv
      have hentry : (readPaths (part ++ [.member "paths"]) (some (.object members))).Accounts
          (part ++ [.member "paths"] ++ [.member key]) _ := readPaths_accounts hw
      rw [List.append_assoc, ← hsection] at hentry
      exact hentry.of_subset fun _ h => mem_notes_readScope_iff.mpr (Or.inl h)
  | shim key =>
      obtain ⟨members, w, hsection, hw, ⟨⟩⟩ := valueAt?_entry hv
      have hentry : (readShims (part ++ [.member "shim"]) (some (.object members))).Accounts
          (part ++ [.member "shim"] ++ [.member key]) _ :=
        readShims_accounts hw fun h => hnull ⟨rfl, h⟩
      rw [List.append_assoc, ← hsection] at hentry
      exact hentry.of_subset fun _ h => mem_notes_readScope_iff.mpr (Or.inr (Or.inl h))
  | dependency script index =>
      obtain ⟨members, w, hsection, hw, hv⟩ := valueAt?_entry hv
      obtain ⟨shim, deps, rfl, hdeps, hv⟩ := valueAt?_member_eq_some hv
      obtain ⟨items, _, rfl, hitem, ⟨⟩⟩ := valueAt?_item_eq_some hv
      have hentry : (readShims (part ++ [.member "shim"]) (some (.object members))).Accounts
          (part ++ [.member "shim"] ++ [.member script, .member "deps", .item index]) _ :=
        readShims_accounts_dependency hw hdeps (List.mem_of_getElem? hitem) index
      rw [List.append_assoc, ← hsection] at hentry
      exact hentry.of_subset fun _ h => mem_notes_readScope_iff.mpr (Or.inr (Or.inl h))
  | remap key =>
      obtain ⟨members, w, hsection, hw, ⟨⟩⟩ := valueAt?_entry hv
      have hentry : (readRemaps (part ++ [.member "map"]) (some (.object members))).Accounts
          (part ++ [.member "map"] ++ [.member key]) _ :=
        readRemaps_accounts hw fun h => hnull ⟨rfl, h⟩
      rw [List.append_assoc, ← hsection] at hentry
      exact hentry.of_subset fun _ h => mem_notes_readScope_iff.mpr (Or.inr (Or.inr h))
  | replacement consumer old =>
      obtain ⟨members, w, hsection, hw, hv⟩ := valueAt?_entry hv
      obtain ⟨replacements, _, rfl, hold, ⟨⟩⟩ := valueAt?_member_eq_some hv
      have hentry : (readRemaps (part ++ [.member "map"]) (some (.object members))).Accounts
          (part ++ [.member "map"] ++ [.member consumer, .member old]) _ :=
        readRemaps_accounts_replacement hw hold
      rw [List.append_assoc, ← hsection] at hentry
      exact hentry.of_subset fun _ h => mem_notes_readScope_iff.mpr (Or.inr (Or.inr h))

/-- `null` is not held where an object should be. -/
theorem not_held_null (he : e.isObject = true) (s : Scope) : ¬ e.Held s .null := by
  cases e with
  | shim key =>
      rintro ⟨x, -, -, body, hbody, -⟩
      cases hbody
  | remap key =>
      rintro ⟨r, -, -, body, hbody, -⟩
      cases hbody
  | _ => cases he

/-- **And it is not noted.** -/
theorem not_noted_null (hbody : (Json.object body).Distinct) (he : e.isObject = true)
    (hv : valueAt? (.object body) e.part = some .null) :
    ∀ note ∈ (readScope part body).notes, ¬ note.part <+: part ++ e.part := by
  intro note hnote haround
  -- A note of another section names a part of the other section.
  have hother : ∀ {name other : String}, part ++ [.member other] <+: note.part →
      note.part <+: part ++ .member name :: e.part.tail → other = name :=
    fun h h' => Step.member.inj (step_eq_of_around h h')
  rw [mem_notes_readScope_iff] at hnote
  cases e with
  | shim key =>
      obtain ⟨members, w, hsection, hw, ⟨⟩⟩ := valueAt?_entry hv
      have hnames := names_nodup_of_distinct (distinct_get? hbody "shim" _ hsection)
      rcases hnote with hnote | hnote | hnote
      · exact absurd (hother ((readPaths_located _).prefix_of_mem hnote) haround) (by decide)
      · rw [hsection] at hnote
        refine not_noted_of_null readShim_located (fun _ _ => rfl) hnames hw note hnote ?_
        rwa [List.append_assoc]
      · exact absurd (hother ((readRemaps_located _).prefix_of_mem hnote) haround) (by decide)
  | remap key =>
      obtain ⟨members, w, hsection, hw, ⟨⟩⟩ := valueAt?_entry hv
      have hnames := names_nodup_of_distinct (distinct_get? hbody "map" _ hsection)
      rcases hnote with hnote | hnote | hnote
      · exact absurd (hother ((readPaths_located _).prefix_of_mem hnote) haround) (by decide)
      · exact absurd (hother ((readShims_located _).prefix_of_mem hnote) haround) (by decide)
      · rw [hsection] at hnote
        refine not_noted_of_null readRemap_located (fun _ _ => rfl) hnames hw note hnote ?_
        rwa [List.append_assoc]
  | _ => cases he

end ScopeEntry

end AmdKit.Loader
