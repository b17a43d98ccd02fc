/-
  AmdKit.Loader.Writer
  ────────────────────────────────
  **WRITING A CONFIGURATION DOCUMENT.**

  A collection becomes a JSON object with a member for each section that has
  entries.  A key that repeats within a section keeps its first position and
  takes its last value, as in any object.  Overrides are written as a list, so
  that two for one bundle stay apart.
-/
import AmdKit.Json.Printer
import AmdKit.Loader.Collection

namespace AmdKit.Loader

open Json (Members)

/-! ## §1. Entries. -/

/-- A text that is there and not empty. -/
def nonEmpty? (s : Option String) : Option String :=
  s.filter fun t => !t.isEmpty

/-- The target of a path entry, with its default bundle if it has one. -/
def PathEntry.toJson (p : PathEntry) : Json :=
  match nonEmpty? p.defaultBundle with
  | some bundle => .object [("path", .string p.target), ("defaultBundle", .string bundle)]
  | none => .string p.target

/-- A list of strings. -/
def textList (ss : List String) : Json := .array (ss.map Json.string)

/-- A member, unless its value is empty. -/
def memberIf (present : Bool) (name : String) (value : Json) : Members :=
  if present then [(name, value)] else []

/-- The dependencies and the exported name of a shim, as far as it has any. -/
def Shim.toJson (s : Shim) : Json :=
  .object (memberIf (!s.dependencies.isEmpty) "deps" (textList s.dependencies)
    ++ (nonEmpty? s.exported).toList.map fun name => ("exports", .string name))

/-- The replacements of a consumer. -/
def Remap.toJson (r : Remap) : Json :=
  .ofMembers (r.replacements.map fun x => (x.old, .string x.new))

/-! ## §2. Sections. -/

/-- A section of path entries. -/
def pathsJson (ps : List PathEntry) : Json :=
  .ofMembers (ps.map fun p => (p.key, p.toJson))

/-- A section of shims. -/
def shimsJson (ss : List Shim) : Json :=
  .ofMembers (ss.map fun s => (s.forModule, s.toJson))

/-- A section of redirected dependencies. -/
def remapsJson (rs : List Remap) : Json :=
  .ofMembers (rs.map fun r => (r.forModule, r.toJson))

/-- A section of bundles. -/
def bundlesJson (bs : List Bundle) : Json :=
  .ofMembers (bs.map fun b => (b.bundleId, textList b.modules))

/-- An override, with the sections that have entries. -/
def Override.toJson (o : Override) : Json :=
  .object (("bundleId", .string o.bundleId)
    :: (memberIf (!o.paths.isEmpty) "paths" (pathsJson o.paths)
      ++ memberIf (!o.shims.isEmpty) "shim" (shimsJson o.shims)
      ++ memberIf (!o.remaps.isEmpty) "map" (remapsJson o.remaps)
      ++ [("bundledScripts", textList o.scripts)]))

/-! ## §3. Documents. -/

/-- The document of a collection. -/
def Collection.toJson (c : Collection) : Json :=
  .object (memberIf (!c.paths.isEmpty) "paths" (pathsJson c.paths)
    ++ memberIf (!c.bundlePaths.isEmpty) "bundlePaths" (pathsJson c.bundlePaths)
    ++ memberIf (!c.shims.isEmpty) "shim" (shimsJson c.shims)
    ++ memberIf (!c.remaps.isEmpty) "map" (remapsJson c.remaps)
    ++ memberIf (!c.bundles.isEmpty) "bundles" (bundlesJson c.bundles)
    ++ memberIf (!c.overrides.isEmpty) "overrides" (.array (c.overrides.map Override.toJson)))

end AmdKit.Loader
