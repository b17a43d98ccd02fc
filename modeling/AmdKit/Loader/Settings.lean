/-
  AmdKit.Loader.Settings
  ────────────────────────────────
  **SETTINGS AND RUNS OF THE LOADER.**

  The loader is told which optional sections to merge; that is read from JSON, both
  fields optional.  Configurations are read from the files of a tree, written to
  them, and loaded from several of them at once, the first file that can not be used
  ending the load.
-/
import AmdKit.Json.Record
import AmdKit.Loader.Files
import AmdKit.Loader.Merge
import AmdKit.Loader.Writer

namespace AmdKit.Loader

/-! ## §1. Settings. -/

/-- Read merge options from JSON. -/
def MergeOptions.parse (text : String) : Except Json.Failure MergeOptions := do
  let fields ← Json.readWhole
    (Json.readRecord "ConfigLoaderOptions" ⟨"loadOverrides", Json.readBool⟩
      ⟨"processBundles", Json.readBool⟩)
    text
  return ⟨fields.1.getD false, fields.2.getD false⟩

/-! ## §2. Runs. -/

/-- Read the configuration in a file. -/
def readConfiguration (top : Directory) (path : String) : Except Failure Outcome := do
  parse (← readText top path) path

/-- Write a configuration to a file. -/
def writeConfiguration (top : Directory) (path : String) (c : Collection) :
    Except Failure Directory :=
  writeText top path (Json.renderPretty c.toJson)

/-- Read several configuration files and merge them in order: the warnings of
reading come first. -/
def load (top : Directory) (options : MergeOptions) (paths : List String) :
    Except Failure Outcome := do
  let outcomes ← paths.mapM (readConfiguration top)
  let merged := merge options (outcomes.map Outcome.collection)
  return { merged with warnings := outcomes.flatMap Outcome.warnings ++ merged.warnings }

end AmdKit.Loader
