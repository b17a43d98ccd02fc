/-
  AmdKit.Loader.Reader
  ────────────────────────────────
  **READING A CONFIGURATION DOCUMENT.**

  Each section has one reading function; overrides use the same functions for
  the sections nested in them.  An absent or `null` section is empty.  A part
  of the wrong shape is noted and left out, and the rest is still read:

      parse text name  fails only if the text is no JSON object
-/
import AmdKit.Json.Reader
import AmdKit.Loader.Collection
import AmdKit.Loader.Noted

namespace AmdKit.Loader

open Json (Members)

/-! ## §1. Sections. -/

/-- The members of a part that should be an object. -/
def readObject (part : Section) : Option Json → Noted (Option Members)
  | none => .plain none
  | some .null => .plain none
  | some (.object members) => .plain (some members)
  | some other => .skipped none part (.notObject (.of other))

/-- Read every member of a part that should be an object. -/
def readEntries {α : Type} (part : Section) (value : Option Json)
    (read : Section → String → Json → Noted (Option α)) : Noted (List α) := do
  match ← readObject part value with
  | none => return []
  | some members => Noted.collect (fun m => read (part ++ [.member m.1]) m.1 m.2) members

/-- Read a part that should be a list of strings. -/
def readStrings (part : Section) : Option Json → Noted (List String)
  | none => .plain []
  | some .null => .plain []
  | some (.array items) =>
    Noted.collect
      (fun
        | .string s => .plain (some s)
        | other => .skipped none part (.notString (.of other)))
      items
  | some other => .skipped [] part (.notArray (.of other))

/-- Read a path entry: a string, or an object with a `path`. -/
def readPath (part : Section) (key : String) : Json → Noted (Option PathEntry)
  | .string target => .plain (some ⟨key, target, none⟩)
  | .object body =>
    match (Members.get? body "path").bind Json.text? with
    | some target => .plain (some ⟨key, target, (Members.get? body "defaultBundle").bind Json.text?⟩)
    | none => .skipped none part .missingPath
  | other => .skipped none part (.notStringOrObject (.of other))

/-- Read a section of path entries. -/
def readPaths (part : Section) (value : Option Json) : Noted (List PathEntry) :=
  readEntries part value readPath

/-- Read the exported name of a shim. -/
def readExported (part : Section) : Option Json → Noted (Option String)
  | none => .plain none
  | some .null => .plain none
  | some (.string name) => .plain (some name)
  | some other => .skipped none part (.exportsNotString (.of other))

/-- Read a shim. -/
def readShim (part : Section) (key : String) (value : Json) : Noted (Option Shim) := do
  match ← readObject part (some value) with
  | none => return none
  | some body =>
    let exported ← readExported part (Members.get? body "exports")
    let dependencies ← readStrings (part ++ [.member "deps"]) (Members.get? body "deps")
    return some ⟨key, exported, dependencies⟩

/-- Read a section of shims. -/
def readShims (part : Section) (value : Option Json) : Noted (List Shim) :=
  readEntries part value readShim

/-- Read one redirected dependency. -/
def readReplacement (part : Section) (old : String) : Json → Noted (Option Replacement)
  | .string new => .plain (some ⟨old, new⟩)
  | other => .skipped none part (.notString (.of other))

/-- Read the redirected dependencies of one consumer. -/
def readRemap (part : Section) (key : String) (value : Json) : Noted (Option Remap) := do
  match ← readObject part (some value) with
  | none => return none
  | some body =>
    let replacements ← readEntries part (some (.object body)) readReplacement
    return some ⟨key, replacements⟩

/-- Read a section of redirected dependencies. -/
def readRemaps (part : Section) (value : Option Json) : Noted (List Remap) :=
  readEntries part value readRemap

/-- Read a bundle. -/
def readBundle (part : Section) (id : String) (value : Json) : Noted (Option Bundle) := do
  return some ⟨id, ← readStrings part (some value)⟩

/-- Read a section of bundles. -/
def readBundles (part : Section) (value : Option Json) : Noted (List Bundle) :=
  readEntries part value readBundle

/-! ## §2. Overrides. -/

/-- The id that an override is given: the name of the member that it is, or
else its own `bundleId`.  A blank id counts as none. -/
def overrideId? (key : Option String) (body : Members) : Option String :=
  (key.or ((Members.get? body "bundleId").bind Json.text?)).filter fun id => !Text.allBlank id

/-- Read an override. -/
def readOverride (part : Section) (key : Option String) (value : Json) :
    Noted (Option Override) := do
  match ← readObject part (some value) with
  | none => return none
  | some body =>
    match overrideId? key body with
    | none => .skipped none part .missingBundleId
    | some id =>
      let paths ← readPaths (part ++ [.member "paths"]) (Members.get? body "paths")
      let shims ← readShims (part ++ [.member "shim"]) (Members.get? body "shim")
      let remaps ← readRemaps (part ++ [.member "map"]) (Members.get? body "map")
      let scripts ← readStrings (part ++ [.member "bundledScripts"]) (Members.get? body "bundledScripts")
      return some ⟨id, paths, shims, remaps, scripts⟩

/-- Read the overrides: a list of them, or an object with the bundle ids as the
names of its members. -/
def readOverrides (part : Section) : Option Json → Noted (List Override)
  | none => .plain []
  | some .null => .plain []
  | some (.array items) =>
    Noted.collect (fun entry => readOverride (part ++ [.item entry.2]) none entry.1) items.zipIdx
  | some (.object members) =>
    Noted.collect (fun m => readOverride (part ++ [.member m.1]) (some m.1) m.2) members
  | some other => .skipped [] part (.notArrayOrObject (.of other))

/-! ## §3. Documents. -/

/-- A collection and the warnings that go with it. -/
structure Outcome where
  /-- What was read or merged. -/
  collection : Collection
  /-- What was left out. -/
  warnings : List Warning
  deriving Repr, DecidableEq

/-- Read the sections of a document. -/
def readDocument (source : String) (document : Members) : Noted Collection := do
  let paths ← readPaths [.member "paths"] (Members.get? document "paths")
  let bundlePaths ← readPaths [.member "bundlePaths"] (Members.get? document "bundlePaths")
  let shims ← readShims [.member "shim"] (Members.get? document "shim")
  let remaps ← readRemaps [.member "map"] (Members.get? document "map")
  let bundles ← readBundles [.member "bundles"] (Members.get? document "bundles")
  let overrides ← readOverrides [.member "overrides"] (Members.get? document "overrides")
  return ⟨some source, paths, bundlePaths, shims, remaps, bundles, overrides⟩

/-- Read a document; its name goes into the collection and the warnings. -/
def parse (text source : String) : Except Failure Outcome :=
  match Json.parse text with
  | .error failure => .error (.invalidJson source failure)
  | .ok (.object document) =>
    let noted := readDocument source document
    .ok ⟨noted.value, noted.notes.map fun note => ⟨source, note⟩⟩
  | .ok _ => .error (.notAnObject source)

end AmdKit.Loader
