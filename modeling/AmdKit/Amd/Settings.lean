/-
  AmdKit.Amd.Settings
  ────────────────────────────────
  **SETTINGS OF THE INJECTION.**

  The settings say whether new dependency arrays are filled, and which module
  a free name stands for.  They are read from JSON, both fields optional.
-/
import AmdKit.Json.Record

namespace AmdKit.Amd

/-- What a run of the injection is told. -/
structure Settings where
  /-- New arrays are filled with the modules that the factory uses. -/
  autoDependencies : Bool := false
  /-- The module that a free name stands for; each name once. -/
  aliases : List (String × String) := []
  deriving Repr, DecidableEq

namespace Settings

/-- The module that a name stands for. -/
def module? (s : Settings) (name : String) : Option String :=
  (Keyed.find? Prod.fst name s.aliases).map Prod.snd

/-- Let a name stand for a module. -/
def withAlias (s : Settings) (name module : String) : Settings :=
  { s with aliases := Keyed.put Prod.fst (name, module) s.aliases }

/-- The settings say nothing. -/
def isDefault (s : Settings) : Bool :=
  !s.autoDependencies && s.aliases.isEmpty

/-- Read settings from JSON. -/
def parse (text : String) : Except Json.Failure Settings := do
  let fields ← Json.readWhole
    (Json.readRecord "TransformConfig" ⟨"autoDependencies", Json.readBool⟩ ⟨"aliases", Json.readTable⟩)
    text
  return ⟨fields.1.getD false, fields.2.getD []⟩

end Settings

end AmdKit.Amd
