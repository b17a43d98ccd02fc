/-
  AmdKit.Options
  ────────────────────────────────
  **OPTION STORES.**

  Options are kept in two stores.  The global store lives on from request to
  request and can be locked, after which every write to it is refused.  The
  page store belongs to one request and starts empty with the next.
-/
import AmdKit.Json.Basic

namespace AmdKit

open Json (Members)

/-- The store that an operation works on. -/
inductive OptionScope where
  /-- The store of the current request. -/
  | page
  /-- The store that outlives requests. -/
  | global
  deriving Repr, DecidableEq

/-- Why an operation on the stores is refused. -/
inductive OptionFault where
  /-- The global store is locked. -/
  | locked
  deriving Repr, DecidableEq

/-- The wording of a refusal. -/
def OptionFault.message : OptionFault → String
  | .locked => "global options are locked and can not be modified"

/-- The two stores, and whether the global one is locked. -/
structure OptionStores where
  /-- The options that outlive requests. -/
  global : Members := []
  /-- The options of the current request. -/
  page : Members := []
  /-- The global store refuses writes. -/
  locked : Bool := false

/-- An operation on the stores.  It may be refused, and the stores that it
leaves are part of the result either way. -/
abbrev StoreAction := EStateM OptionFault OptionStores

namespace OptionStores

/-! ## §1. Operations. -/

/-- The values of a store. -/
def values (s : OptionStores) : OptionScope → Members
  | .page => s.page
  | .global => s.global

/-- Change the values of a store, unless it is locked. -/
def change (scope : OptionScope) (f : Members → Members) : StoreAction Unit := do
  match scope with
  | .page => modify fun s => { s with page := f s.page }
  | .global =>
    if (← get).locked then throw .locked
    modify fun s => { s with global := f s.global }

/-- Set an option, whatever it was. -/
def add (key : String) (value : Json) (scope : OptionScope) : StoreAction Unit :=
  change scope fun store => store.set key value

/-- The value of an object option after more members were given. -/
def withMembers (store : Members) (key : String) (members : Members) (clearExisting : Bool) :
    Members :=
  match store.get? key with
  | some (.object existing) =>
    if clearExisting then store.set key (.object members)
    else store.set key (.object (Members.setAll existing members))
  | _ => store.set key (.object members)

/-- Set an object option.  An object that is stored already takes the new
members and keeps the others, unless `clearExisting` is set. -/
def addObject (key : String) (members : Members) (scope : OptionScope) (clearExisting : Bool) :
    StoreAction Unit :=
  change scope fun store => withMembers store key members clearExisting

/-- The value of an option. -/
def get? (s : OptionStores) (key : String) (scope : OptionScope) : Option Json :=
  (s.values scope).get? key

/-- Empty a store. -/
def clear (scope : OptionScope) : StoreAction Unit :=
  change scope fun _ => []

/-- Empty both stores. -/
def clearAll : StoreAction Unit := do
  -- The store that may refuse comes first, so that a refusal finds the other one untouched.
  clear .global
  clear .page

/-- The options that a page sees: those of the global store, replaced by those
of the page store. -/
def effective (s : OptionStores) : Members :=
  Members.setAll s.global s.page

/-- End the request, and give back its page store; the next request starts with
an empty one. -/
def endRequest : StoreAction Members := do
  let page := (← get).page
  modify fun s => { s with page := [] }
  return page

/-- End the request and refuse writes to the global store from now on. -/
def lock : StoreAction Members := do
  let page ← endRequest
  modify fun s => { s with locked := true }
  return page

end OptionStores

/-! ## §2. Runs. -/

/-- One step of a caller. -/
inductive OptionStep where
  /-- Set an option. -/
  | add (key : String) (value : Json) (scope : OptionScope)
  /-- Set an object option. -/
  | addObject (key : String) (members : Members) (scope : OptionScope) (clearExisting : Bool)
  /-- Empty a store. -/
  | clear (scope : OptionScope)
  /-- Empty both stores. -/
  | clearAll
  /-- End the request. -/
  | endRequest
  /-- End the request and lock the global store. -/
  | lock

/-- What a step does; the result is the page store of the request that it ends,
if it ends one. -/
def OptionStep.run : OptionStep → StoreAction (Option Members)
  | .add key value scope => do
    OptionStores.add key value scope
    return none
  | .addObject key members scope clearExisting => do
    OptionStores.addObject key members scope clearExisting
    return none
  | .clear scope => do
    OptionStores.clear scope
    return none
  | .clearAll => do
    OptionStores.clearAll
    return none
  | .endRequest => some <$> OptionStores.endRequest
  | .lock => some <$> OptionStores.lock

/-- The stores after a step, whether it was refused or not. -/
def OptionStep.after (step : OptionStep) (s : OptionStores) : OptionStores :=
  match step.run s with
  | .ok _ t | .error _ t => t

/-- The stores after several steps. -/
def OptionStores.afterAll (s : OptionStores) (steps : List OptionStep) : OptionStores :=
  steps.foldl (fun t step => step.after t) s

end AmdKit
