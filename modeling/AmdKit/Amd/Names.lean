/-
  AmdKit.Amd.Names
  ────────────────────────────────
  **NAMES OF A FACTORY.**

  A factory uses a module if it refers to a name that stands for the module and
  that it does not declare.  Scopes do not count: a name that is declared
  anywhere in the factory is declared in all of it.
-/
import AmdKit.Amd.Call
import AmdKit.Keyed

namespace AmdKit.Amd

open Script (Node Kind)

/-! ## §1. Names of a tree. -/

/-- The name that a kind introduces. -/
def declaredBy : Kind → List String
  | .binding name | .declared name => [name]
  | _ => []

/-- The name that a kind refers to. -/
def referredBy : Kind → List String
  | .reference name | .target name | .shorthand name | .shorthandDefault name _ => [name]
  | _ => []

mutual

/-- What the kinds of a tree give, in walking order. -/
def gather (f : Kind → List String) : Node → List String
  | .mk kind _ children => f kind ++ gatherAll f children

/-- What the kinds of several trees give, in walking order. -/
def gatherAll (f : Kind → List String) : List Node → List String
  | [] => []
  | n :: ns => gather f n ++ gatherAll f ns

end

/-- The names that a tree declares. -/
def declaredNames (n : Node) : List String := gather declaredBy n

/-- The names that a tree refers to, in walking order. -/
def referredNames (n : Node) : List String := gather referredBy n

/-! ## §2. Modules. -/

/-- The modules that a factory uses, in the order in which it first does, when
`module?` says what a name stands for. -/
def usedModules (module? : String → Option String) (factory : Node) : List String :=
  let declared := declaredNames factory
  let free := (referredNames factory).filter fun name => name ∉ declared
  Keyed.keepFirst id (free.filterMap module?)

end AmdKit.Amd
