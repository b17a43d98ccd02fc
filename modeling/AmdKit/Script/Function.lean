/-
  AmdKit.Script.Function
  ────────────────────────────────
  **FUNCTIONS AND BLOCKS.**

  A function has parameters and a body.  A body is a context of its own: labels
  and loops around it do not count inside of it, and a `'use strict'` in front
  makes it strict, unless it is the body of an arrow function.
-/
import AmdKit.Script.Target

namespace AmdKit.Script

open Text (Span)

/-! ## §1. Directives. -/

namespace Node

/-- The string that makes up a statement. -/
def directive? : Node → Option String
  | mk .statement _ [mk .evaluation _ [mk (.string raw) _ _]] => some raw
  | _ => none

/-- The statement makes the code around it strict. -/
def isUseStrict (n : Node) : Bool :=
  n.directive? = some "'use strict'" || n.directive? = some "\"use strict\""

/-- The first strict directive among the directives in front. -/
def strictDirective? (statements : List Node) : Option Node :=
  (statements.takeWhile fun n => n.directive?.isSome).find? isUseStrict

/-- The parameter is a plain name. -/
def isPlainName (n : Node) : Bool :=
  match n.kind with
  | .binding _ => true
  | _ => false

end Node

/-! ## §2. Blocks. -/

/-- Read statements until `stop` says that they end.  A strict directive counts
if it is the first statement. -/
def statements (item : Parse Node) (stop : Parse Bool) (directives : Bool) :
    Parse (List Node) := do
  if ← stop then return []
  let first ← item
  if directives && first.isUseStrict then
    modify fun s => { s with context := { s.context with strict := true } }
  let more ← many do
    if ← stop then return none else return some (← item)
  return first :: more

/-- Go past a closing brace.  It is reported if the script ends without it. -/
def closeBlock : Parse Bool := do
  if ← atEnd then
    reportHere (.expected (Mark.text .rightBrace) (← token).text)
    return true
  else eatMark .rightBrace

/-- Read statements between braces. -/
def block (rules : Rules) (kind : Kind) (directives : Bool) : Parse Node := do
  let start ← position
  expectMark .leftBrace
  let items ← statements (rules .item) closeBlock directives
  return .mk kind (← spanFrom start) items

/-! ## §3. Bodies. -/

/-- Run a parser in the body of a function. -/
def insideFunction {α : Type} (isAsync isGenerator isArrow : Bool) (p : Parse α) : Parse α :=
  fun s =>
    let context :=
      { s.context with
        inAsync := isAsync, inGenerator := isGenerator, inFunction := true, inStaticBlock := false
        inOrdinaryFunction := s.context.inOrdinaryFunction || !isArrow
        topLevel := false, allowsBreak := false, allowsContinue := false }
    let leave (t : State) : State :=
      { t with
        context := s.context, labels := s.labels, arrowStart := s.arrowStart
        moduleItem := s.moduleItem }
    match p { s with context, labels := [], arrowStart := none, moduleItem := false } with
    | .ok a t => .ok a (leave t)
    | .error e t => .error e (leave t)

/-- Read the body of a function that is no arrow function. -/
def functionBody (rules : Rules) (isAsync isGenerator : Bool) (parameters : List Node) :
    Parse Node :=
  insideFunction isAsync isGenerator false do
    let body ← withIn true (block rules .body true)
    if !parameters.all Node.isPlainName then
      if let some directive := Node.strictDirective? body.children then
        report .strictWithPatterns directive.span.start
    return body

/-- Read the body of an arrow function. -/
def arrowBody (rules : Rules) (isAsync : Bool) : Parse Node :=
  insideFunction isAsync false true do
    if ← atMark .leftBrace then block rules .body false else rules .assignment

/-! ## §4. Parameters. -/

/-- Read a parameter and the value that it has by default, if there is one. -/
def parameter (rules : Rules) : Parse Node := do
  let start ← position
  let left ← rules .pattern
  if ← eatMark .assign then
    let right ← rules .assignment
    return .mk .defaultPattern (← spanFrom start) [left, right]
  else return left

/-- Read a parameter that takes what is left, after its mark. -/
def restParameter (rules : Rules) (start : Nat) : Parse Node := do
  let inner ← rules .pattern
  if ← eatMark .assign then
    let right ← rules .assignment
    report .restDefault inner.span.start
    let whole := Node.mk .defaultPattern (← spanFrom inner.span.start) [inner, right]
    return .mk .restPattern (← spanFrom start) [whole]
  else return .mk .restPattern (← spanFrom start) [inner]

/-- Read parameters up to the closing parenthesis. -/
def parameters (rules : Rules) : Parse (List Node) := do
  let (items, _) ← iterate (fun (items, rest) => do
    if ← atMark .rightParen then return ((items, rest), true)
    if let some offset := rest then report .restParameterNotLast offset
    let start ← position
    if ← eatMark .ellipsis then
      let dots ← previous
      let item ← restParameter rules start
      commaUnless .rightParen true
      return ((items ++ [item], some dots.start), false)
    else
      let item ← parameter rules
      commaUnless .rightParen false
      return ((items ++ [item], rest), false)) (([] : List Node), (none : Option Nat))
  return items

/-- Read the parameters and the body of a function.  `check` looks at the
parameters. -/
def functionParts (rules : Rules) (isAsync isGenerator : Bool)
    (check : List Node → Parse Unit) : Parse (List Node) :=
  within (fun c => { c with inAsync := isAsync, inGenerator := isGenerator, inField := false }) do
    expectMark .leftParen
    let items ← within (fun c => { c with inParameters := true, inFunction := false }) do
      let items ← parameters rules
      check items
      return items
    expectMark .rightParen
    let body ← functionBody rules isAsync isGenerator items
    return items ++ [body]

/-- Accept any parameters. -/
def anyParameters (_ : List Node) : Parse Unit := return ()

/-- A getter, whose name stands at the offset, has no parameters. -/
def getterParameters (name : Nat) (items : List Node) : Parse Unit := do
  if !items.isEmpty then report .getterParameters name

/-- A setter, whose name stands at the offset, has one parameter. -/
def setterParameters (name : Nat) (items : List Node) : Parse Unit := do
  if items.length ≠ 1 then report .setterParameters name
  if let first :: _ := items then
    if first.kind = .restPattern then report .setterRest first.span.start

/-! ## §5. Functions. -/

/-- Whether a function has a name, and where it is introduced. -/
inductive Naming where
  /-- The function is a declaration with a name. -/
  | declaration
  /-- The function is a declaration and may have a name. -/
  | optional
  /-- The function is an expression and may have a name. -/
  | expression
  deriving Repr, DecidableEq

/-- Read a function at the word `function`. -/
def functionFrom (rules : Rules) (naming : Naming) (start : Nat) (isAsync : Bool) :
    Parse Node := do
  bump
  let isGenerator ← eatMark (.operator .times)
  let name ← match naming with
    | .declaration => some <$> bindingIdentifier
    | .optional => bindingIdentifier?
    | .expression =>
      within (fun c => { c with inAsync := isAsync, inGenerator := isGenerator }) bindingIdentifier?
  let declared := name.toList.map fun (text, span) => Node.leaf (.declared text) span
  let parts ← functionParts rules isAsync isGenerator anyParameters
  return .mk .function (← spanFrom start) (declared ++ parts)

/-- Read a function that is not asynchronous. -/
def plainFunction (rules : Rules) (naming : Naming) : Parse Node := do
  functionFrom rules naming (← position) false

/-- Read an asynchronous function at the word `async`. -/
def asyncFunction (rules : Rules) (naming : Naming) : Parse Node := do
  let start ← position
  bump
  functionFrom rules naming start true

/-- An asynchronous function stands here. -/
def atAsyncFunction : Parse Bool := do
  if ← atWord .async_ then
    let next ← peek
    return next.token = .word .function_ && !next.lineBreak
  else return false

end AmdKit.Script
