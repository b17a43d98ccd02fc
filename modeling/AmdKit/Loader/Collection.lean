/-
  AmdKit.Loader.Collection
  ────────────────────────────────
  **THE CONFIGURATION OF A MODULE LOADER.**

  A collection holds the sections of one configuration document, each an
  ordered list.  A collection that was built by hand may repeat keys; look-ups
  take the first match, and a merged collection has every key once.
-/
import AmdKit.Keyed
import AmdKit.Text.Classes

namespace AmdKit.Loader

/-! ## §1. Entries. -/

/-- Where a module, or a bundle, is loaded from. -/
structure PathEntry where
  /-- The id that is redirected. -/
  key : String
  /-- Where it is found. -/
  target : String
  /-- The bundle that holds the module unless a page says otherwise. -/
  defaultBundle : Option String
  deriving Repr, DecidableEq

/-- How a script that does not define a module is used as one. -/
structure Shim where
  /-- The id of the script. -/
  forModule : String
  /-- The global name that the script leaves behind. -/
  exported : Option String
  /-- The modules to be loaded before the script. -/
  dependencies : List String
  deriving Repr, DecidableEq

/-- One redirected dependency. -/
structure Replacement where
  /-- The id that is asked for. -/
  old : String
  /-- The id that is loaded. -/
  new : String
  deriving Repr, DecidableEq

/-- The redirected dependencies of one consumer. -/
structure Remap where
  /-- The module whose dependencies are redirected. -/
  forModule : String
  /-- What is loaded in place of what. -/
  replacements : List Replacement
  deriving Repr, DecidableEq

/-- Modules that are served as one file. -/
structure Bundle where
  /-- The id of the bundle. -/
  bundleId : String
  /-- The modules inside. -/
  modules : List String
  deriving Repr, DecidableEq

/-- A small configuration that holds only while one of its scripts is served. -/
structure Override where
  /-- The id of the bundle that it belongs to. -/
  bundleId : String
  /-- Where modules are loaded from. -/
  paths : List PathEntry
  /-- How scripts are used as modules. -/
  shims : List Shim
  /-- Redirected dependencies. -/
  remaps : List Remap
  /-- The scripts for which the override holds. -/
  scripts : List String
  deriving Repr, DecidableEq

/-! ## §2. Collections. -/

/-- The sections of a configuration document. -/
structure Collection where
  /-- Where the document came from; a merged collection came from nowhere. -/
  source : Option String := none
  /-- Where modules are loaded from. -/
  paths : List PathEntry := []
  /-- Where bundles are served from. -/
  bundlePaths : List PathEntry := []
  /-- How scripts are used as modules. -/
  shims : List Shim := []
  /-- Redirected dependencies. -/
  remaps : List Remap := []
  /-- Modules that are served together. -/
  bundles : List Bundle := []
  /-- Configurations for single scripts. -/
  overrides : List Override := []
  deriving Repr, DecidableEq

/-- Which of the optional sections are merged. -/
structure MergeOptions where
  /-- Overrides are kept. -/
  loadOverrides : Bool := false
  /-- Bundles are kept. -/
  processBundles : Bool := false
  deriving Repr, DecidableEq

/-- The override holds while the script is served. -/
def Override.appliesTo (o : Override) (script : String) : Bool :=
  decide (script ∈ o.scripts)

/-- The override names a bundle: its id is not blank. -/
def Override.isNamed (o : Override) : Bool :=
  !Text.allBlank o.bundleId

namespace Collection

/-- The entry that says where a module is loaded from. -/
def path? (c : Collection) (key : String) : Option PathEntry :=
  Keyed.find? PathEntry.key key c.paths

/-- The entry that says where a bundle is served from. -/
def bundlePath? (c : Collection) (id : String) : Option PathEntry :=
  Keyed.find? PathEntry.key id c.bundlePaths

/-- The shim of a script. -/
def shim? (c : Collection) (module : String) : Option Shim :=
  Keyed.find? Shim.forModule module c.shims

/-- The redirected dependencies of a module. -/
def remap? (c : Collection) (module : String) : Option Remap :=
  Keyed.find? Remap.forModule module c.remaps

/-- The bundle with an id. -/
def bundle? (c : Collection) (id : String) : Option Bundle :=
  Keyed.find? Bundle.bundleId id c.bundles

/-- The overrides that hold while a script is served, in order. -/
def overridesFor (c : Collection) (script : String) : List Override :=
  c.overrides.filter fun o => o.appliesTo script

/-- No section has an entry. -/
def isEmpty (c : Collection) : Bool :=
  c.paths.isEmpty && c.bundlePaths.isEmpty && c.shims.isEmpty && c.remaps.isEmpty
    && c.bundles.isEmpty && c.overrides.isEmpty

end Collection

end AmdKit.Loader
