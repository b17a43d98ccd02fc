/-
  AmdKit.Amd.Injection
  ────────────────────────────────
  **GIVING CALLS THEIR DEPENDENCY ARRAY.**

  Every call site without a dependency array gets one in front of its last
  argument, unless there is no place for it.  The edits of all call sites are
  applied together, so everything else of the source stays as it is.
-/
import AmdKit.Amd.Names
import AmdKit.Amd.Patch
import AmdKit.Amd.Settings

namespace AmdKit.Amd

open Text (Span)

/-! ## §1. Edits of a call. -/

/-- Why a call can not get a dependency array. -/
inductive Unsupported where
  /-- The call has no arguments. -/
  | noArguments
  /-- One of the arguments is a spread. -/
  | spreadArgument
  /-- The only argument is no function. -/
  | soleArgumentNotFactory
  deriving Repr, DecidableEq

/-- The wording of a reason. -/
def Unsupported.message : Unsupported → String
  | .noArguments => "call has no arguments"
  | .spreadArgument => "call uses a spread argument"
  | .soleArgumentNotFactory => "sole argument is not a factory function"

/-- The modules that the array of a call is filled with. -/
def Call.modules (settings : Settings) (c : Call) : List String :=
  match c.factory with
  | some factory => usedModules settings.module? factory.node
  | none => []

/-- The edits that give a call its dependency array; none if it has one. -/
def Call.edits (settings : Settings) (c : Call) : Except Unsupported (List Edit) :=
  if c.hasArray then .ok []
  else if c.hasSpread then .error .spreadArgument
  else
    match c.lastArgument? with
    | none => .error .noArguments
    | some last =>
      if c.argumentSpans.length = 1 ∧ c.factory.isNone then .error .soleArgumentNotFactory
      else
        let add := Edit.addEmptyArray c.statement last.start
        let fill := Edit.fillDependencies c.statement last.start (c.modules settings)
        .ok (if settings.autoDependencies then [add, fill] else [add])

/-! ## §2. Injection. -/

/-- A call that was left as it was. -/
structure SkippedCall where
  /-- Which function is called. -/
  kind : CallKind
  /-- Where the callee stands. -/
  callee : Span
  /-- Why the call was left. -/
  reason : Unsupported
  deriving Repr, DecidableEq

/-- What an injection leads to. -/
structure Outcome where
  /-- The new source. -/
  source : String
  /-- The number of calls that got an array. -/
  patchedCalls : Nat
  /-- The calls without an array that were left. -/
  skipped : List SkippedCall
  deriving Repr, DecidableEq

/-- Why an injection fails. -/
inductive InjectionFault where
  /-- The source can not be read. -/
  | unreadable (fault : SourceFault)
  /-- The edits can not be applied. -/
  | unpatchable (fault : PatchFault)
  deriving Repr, DecidableEq

/-- The calls that an injection is about. -/
def openCalls (calls : List Call) : List Call := calls.filter fun c => !c.hasArray

/-- The edits of the calls that get an array, call by call. -/
def patches (settings : Settings) (calls : List Call) : List (List Edit) :=
  calls.filterMap fun c => (c.edits settings).toOption

/-- The calls that get no array. -/
def skippedCalls (settings : Settings) (calls : List Call) : List SkippedCall :=
  calls.filterMap fun c =>
    match c.edits settings with
    | .ok _ => none
    | .error reason => some ⟨c.kind, c.callee, reason⟩

/-- Give the call sites of a text their dependency arrays. -/
def patchCalls (text : String) (settings : Settings) (calls : List Call) :
    Except PatchFault Outcome := do
  let pending := openCalls calls
  let sets := patches settings pending
  let source ← execute text sets.flatten
  return ⟨source, sets.length, skippedCalls settings pending⟩

/-- Give the call sites of a source their dependency arrays. -/
def inject (text : String) (settings : Settings) : Except InjectionFault Outcome :=
  match Source.read text.toList with
  | .error fault => .error (.unreadable fault)
  | .ok source =>
    match patchCalls text settings source.calls with
    | .error fault => .error (.unpatchable fault)
    | .ok outcome => .ok outcome

end AmdKit.Amd
