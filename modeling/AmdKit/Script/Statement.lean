/-
  AmdKit.Script.Statement
  ────────────────────────────────
  **STATEMENTS.**

  Every statement is a node of its own around its form, and its range includes
  the semicolon that ends it.  The parts of the head of a `for` are no
  statements.
-/
import AmdKit.Script.Expression

namespace AmdKit.Script

open Text (Span)

/-! ## §1. Variables. -/

/-- A declaration of variables can begin with `let` before the token. -/
def Token.followsLet : Token → Bool
  | .name _ | .mark .leftBrace | .mark .leftBracket => true
  | .word w => !w.isReserved
  | _ => false

/-- A lexical declaration stands at the word `let` that is here. -/
def atLet : Parse Bool := do
  if ← atWord .let_ then return (← peek).token.followsLet else return false

/-- Read what is declared, and its value if it has one.  In the head of a `for`
the value may be missing. -/
def declarator (rules : Rules) (inFor : Bool) (kind : VariableKind) : Parse Node := do
  let start ← position
  if kind ≠ .var_ then refuseLet
  let name ← rules .pattern
  if inFor && ((← atWord .in_) || (← atWord .of_)) then
    return .mk .declarator (← spanFrom start) [name]
  if ← eatMark .assign then
    let value ← (← rules .assignment).verify
    return .mk .declarator (← spanFrom start) [name, value]
  if kind = .const_ && !inFor then report .constantNotInitialized start
  else if !name.isPlainName then report .patternNotInitialized start
  return .mk .declarator (← spanFrom start) [name]

/-- Read the declarators of a declaration whose word stands before the offset. -/
def declarators (rules : Rules) (inFor : Bool) (kind : VariableKind) (word : Span) :
    Parse (List Node) := do
  let includeIn (p : Parse Node) : Parse Node :=
    if kind ≠ .var_ || !inFor then withIn true p else p
  iterate (fun items => do
    if (← atEnd) || (← atMark .semicolon) then
      let last ← previous
      report .trailingComma (if last = word then last.stop else last.start)
      return (items, true)
    let next ← includeIn (declarator rules inFor kind)
    return (items ++ [next], !(← eatMark .comma))) ([] : List Node)

/-- Go past what keeps a declaration from ending. -/
def skipToSemicolon (rules : Rules) : Parse Unit := do
  reportHere .semicolonExpected
  tryCatch (do let _ ← expression rules) fun _ => return ()
  let _ ← many do
    if ← eatSemicolon then return none
    bump
    match ← token with
    | .bad _ => return none
    | _ => return some ()

/-- Read a declaration of variables. -/
def declaration (rules : Rules) (inFor : Bool) : Parse Node := do
  let start ← position
  let kind : VariableKind :=
    match ← token with
    | .word .const_ => .const_
    | .word .let_ => .let_
    | _ => .var_
  bump
  let items ← declarators rules inFor kind (← previous)
  if !inFor then
    if !(← eatSemicolon) then skipToSemicolon rules
  return .mk (.declaration kind) (← spanFrom start) items

/-! ## §2. Conditions and loops. -/

/-- Read an expression between parentheses. -/
def condition (rules : Rules) : Parse Node := do
  expectMark .leftParen
  let test ← withIn true (expression rules)
  expectMark .rightParen
  return test

/-- Read the body of a loop. -/
def loopBody (rules : Rules) : Parse Node :=
  within (fun c => { c with allowsBreak := true, allowsContinue := true }) (rules .statement)

/-- Read an `if`. -/
def conditional (rules : Rules) : Parse Node := do
  let start ← position
  bump
  let test ← condition rules
  let yes ← rules .statement
  let no ← if ← eatWord .else_ then pure [← rules .statement] else pure []
  return .mk .conditional (← spanFrom start) ([test, yes] ++ no)

/-- Read a `while`. -/
def whileLoop (rules : Rules) : Parse Node := do
  let start ← position
  bump
  let test ← condition rules
  let body ← loopBody rules
  return .mk .whileLoop (← spanFrom start) [test, body]

/-- Read a `do`.  Its semicolon may be left out anywhere. -/
def doLoop (rules : Rules) : Parse Node := do
  let start ← position
  bump
  let body ← loopBody rules
  expectWord .while_
  let test ← condition rules
  let _ ← eatSemicolon
  return .mk .doWhile (← spanFrom start) [test, body]

/-! ## §3. The head of a `for`. -/

/-- Read a semicolon that can not be left out. -/
def exactSemicolon : Parse Unit := expectMark .semicolon

/-- Read the condition and the step of a `for` after its first semicolon. -/
def stepHead (rules : Rules) (first : List Node) : Parse (Kind × List Node) := do
  let test ← if ← eatMark .semicolon then pure [] else
    let test ← withIn true (expression rules)
    exactSemicolon
    pure [test]
  let step ← if ← atMark .rightParen then pure [] else pure [← withIn true (expression rules)]
  return (.forLoop, first ++ test ++ step)

/-- Read what a loop walks through. -/
def walkHead (rules : Rules) (target : Node) : Parse (Kind × List Node) := do
  let isOf ← atWord .of_
  bump
  if isOf then return (.forOf, [target, ← withIn true (rules .assignment)])
  else return (.forIn, [target, ← withIn true (expression rules)])

/-- The declaration in the head of a loop over values is one name without a
value. -/
def checkLoopVariables (declarators : List Node) : Parse Unit := do
  match declarators with
  | [d] =>
    if ((← context).strict || (← atWord .of_)) && 1 < d.children.length then
      report .initializerInFor d.span.start
  | _ => (declarators.drop 1).forM fun d => report .oneBindingExpected d.span.start

/-- A loop over values goes on here. -/
def atWalk : Parse Bool := do return (← atWord .of_) || (← atWord .in_)

/-- Read the head of a `for`. -/
def forHead (rules : Rules) : Parse (Kind × List Node) := do
  if (← atWord .const_) || (← atWord .var_) || (← atLet) then
    let declared ← declaration rules true
    if ← atWalk then
      checkLoopVariables declared.children
      walkHead rules declared
    else
      exactSemicolon
      stepHead rules [declared]
  else if ← eatMark .semicolon then stepHead rules []
  else
    let first ← withIn false (expression rules)
    if ← atWalk then walkHead rules (← first.asLoopTarget)
    else
      exactSemicolon
      stepHead rules [← first.verify]

/-- Read a `for`. -/
def forLoop (rules : Rules) : Parse Node := do
  let start ← position
  bump
  let awaited ← position
  let isAwait ← eatWord .await_
  expectMark .leftParen
  let (kind, parts) ←
    within (fun c => { c with inForHead := true, inForAwaitHead := isAwait }) (forHead rules)
  expectMark .rightParen
  let body ← loopBody rules
  if isAwait && kind ≠ .forOf then fail .forAwaitOnly awaited
  return .mk kind (← spanFrom start) (parts ++ [body])

/-! ## §4. Jumps. -/

/-- Read a label. -/
def label : Parse String := do
  let (text, _) ← identifierReference
  return text

/-- Read a `break` or a `continue`. -/
def jump (isBreak : Bool) : Parse Node := do
  let start ← position
  bump
  let target ← if ← eatSemicolon then pure none else
    let text ← label
    expectSemicolon
    pure (some text)
  let c ← context
  let labels := (← get).labels
  let known := target.all fun text => text ∈ labels
  if isBreak then
    if !known then report .breakLabel start
    else if !c.allowsBreak then report .breakOutside start
    return .leaf (.leave target) (← spanFrom start)
  else
    if !c.allowsContinue then report .continueOutside start
    else if !known then report .continueLabel start
    return .leaf (.goOn target) (← spanFrom start)

/-- Read a `return`. -/
def returnStatement (rules : Rules) : Parse Node := do
  let start ← position
  bump
  let value ← if ← atSemicolon then pure [] else pure [← withIn true (expression rules)]
  expectSemicolon
  if !(← context).inFunction then report .returnOutside start
  return .mk .giveBack (← spanFrom start) value

/-- Read a `throw`. -/
def throwStatement (rules : Rules) : Parse Node := do
  let start ← position
  bump
  if ← afterLineBreak then failHere .lineBreakAfterThrow
  let value ← withIn true (expression rules)
  expectSemicolon
  return .mk .raise (← spanFrom start) [value]

/-! ## §5. Clauses. -/

/-- Read a clause of a `switch`; `found` tells whether a default clause stood
before it. -/
def switchClause (rules : Rules) (found : Bool) : Parse (Node × Bool) := do
  let start ← position
  let isDefault ← atWord .default_
  if isDefault && found then failHere .duplicateDefault
  bump
  let test ← if isDefault then pure [] else pure [← withIn true (expression rules)]
  expectMark .colon
  let body ← many do
    let stop ← match ← token with
      | .finish | .word .case_ | .word .default_ | .mark .rightBrace => pure true
      | _ => pure false
    if stop then return none else return some (← rules .item)
  return (.mk .clause (← spanFrom start) (test ++ body), found || isDefault)

/-- Read a `switch`. -/
def switchStatement (rules : Rules) : Parse Node := do
  let start ← position
  bump
  let value ← condition rules
  expectMark .leftBrace
  let (clauses, _) ← within (fun c => { c with allowsBreak := true }) do
    iterate (fun (clauses, found) => do
      if (← atWord .case_) || (← atWord .default_) then
        let (next, found) ← switchClause rules found
        return ((clauses ++ [next], found), false)
      else return ((clauses, found), true)) (([] : List Node), false)
  expectMark .rightBrace
  return .mk .switch_ (← spanFrom start) (value :: clauses)

/-- Read a handler, if one stands here. -/
def handler? (rules : Rules) : Parse (Option Node) := do
  let start ← position
  if !(← eatWord .catch_) then return none
  let parameter ← if ← eatMark .leftParen then
      let inner ← rules .pattern
      expectMark .rightParen
      pure [inner]
    else pure []
  let body ← block rules .body false
  return some (.mk .handler (← spanFrom start) (parameter ++ [body]))

/-- Read a finalizer, if one stands here. -/
def finalizer? (rules : Rules) : Parse (Option Node) := do
  if ← eatWord .finally_ then return some (← block rules .body false) else return none

/-- Read a `try`. -/
def tryStatement (rules : Rules) : Parse Node := do
  let start ← position
  bump
  let body ← block rules .body false
  let end_ ← position
  let handler ← handler? rules
  let finalizer ← finalizer? rules
  if handler.isNone && finalizer.isNone then report .semicolonExpected end_
  return .mk .attempt (← spanFrom start) (body :: handler.toList ++ finalizer.toList)

/-- Read a handler or a finalizer that no `try` stands before. -/
def lostHandler (rules : Rules) : Parse Node := do
  let s ← get
  let span := s.current.span
  reportHere .semicolonExpected
  tryCatch (do let _ ← handler? rules) fun _ => return ()
  tryCatch (do let _ ← finalizer? rules) fun _ => return ()
  return .leaf .invalid span

/-- Read a `with`. -/
def withStatement (rules : Rules) : Parse Node := do
  let start ← position
  dropBad
  noteStrict ⟨.withInStrict, ← currentStart⟩
  bump
  let object ← condition rules
  let body ← within (fun c => { c with inFunction := true }) (rules .statement)
  return .mk .withScope (← spanFrom start) [object, body]

/-! ## §6. Labels and expressions. -/

/-- A statement around its form. -/
def Node.asStatement (form : Node) : Node := .mk .statement form.span [form]

/-- Read a statement after its label, which stands at the span. -/
def labelled (rules : Rules) (text : String) (span : Span) : Parse Node :=
  within (fun c => { c with allowsBreak := true }) do
    let outer := (← get).labels
    modify fun s => { s with labels := text :: outer }
    let body ← if ← atWord .function_ then
        let start ← position
        let generator := (← peek).token = .mark (.operator .times)
        let body ← plainFunction rules .declaration
        if (← context).strict then report .labelledFunctionInStrict start
        if generator then report .labelledGenerator start
        pure body.asStatement
      else rules .statement
    if text ∈ outer then report (.duplicateLabel text) span.start
    modify fun s => { s with labels := outer }
    return .mk (.labelled text) (← spanFrom span.start) [body]

/-- End an expression statement. -/
def endEvaluation (rules : Rules) (start : Nat) (value : Node) : Parse Node := do
  if ← eatSemicolon then return .mk .evaluation (← spanFrom start) [value]
  if ← atOperator then
    reportHere .semicolonExpected
    let whole ← binaryRest rules value
    return .mk .evaluation (← spanFrom start) [whole]
  failHere .expressionNotEnded

/-- Read an expression statement or a statement with a label. -/
def evaluation (rules : Rules) : Parse Node := do
  let start ← position
  let value ← withIn true (expression rules)
  match value.kind with
  | .reference text =>
    if ← eatMark .colon then labelled rules text value.span else endEvaluation rules start value
  | _ => endEvaluation rules start (← value.verify)

/-! ## §7. Statements. -/

/-- Read the form of a statement.  `declarations` tells whether a declaration may
stand here. -/
def statementForm (rules : Rules) (declarations topLevel : Bool) : Parse Node := do
  let start ← position
  let refuse : Parse Unit := do
    if !declarations then reportHere .declarationNotAllowed
  match ← required with
  | .word .break_ => jump true
  | .word .continue_ => jump false
  | .word .debugger_ =>
    bump
    expectSemicolon
    return .leaf .pause (← spanFrom start)
  | .word .do_ => doLoop rules
  | .word .for_ => forLoop rules
  | .word .function_ =>
    refuse
    plainFunction rules .declaration
  | .word .class_ =>
    refuse
    classFrom rules start true
  | .word .if_ => conditional rules
  | .word .return_ => returnStatement rules
  | .word .switch_ => switchStatement rules
  | .word .throw_ => throwStatement rules
  | .word .catch_ | .word .finally_ => lostHandler rules
  | .word .try_ => tryStatement rules
  | .word .with_ => withStatement rules
  | .word .while_ => whileLoop rules
  | .word .var_ => declaration rules false
  | .mark .leftBrace => block rules .block false
  | .mark .semicolon =>
    bump
    return .leaf .empty (← spanFrom start)
  | .word .const_ => if declarations then declaration rules false else evaluation rules
  | t =>
    if t = .word .await_ && topLevel then modify fun s => { s with moduleItem := true }
    if declarations && (← atLet) then declaration rules false
    else if ← atAsyncFunction then asyncFunction rules .declaration
    else evaluation rules

/-- Read an expression statement that begins with the word `import`.  Its
semicolon may be left out anywhere. -/
def importEvaluation (rules : Rules) : Parse Node := do
  let start ← position
  let value ← expression rules
  let _ ← eatMark .semicolon
  return .mk .evaluation (← spanFrom start) [value]

/-- The word `import` that stands here begins an expression. -/
def atImportExpression : Parse Bool := do
  if ← atWord .import_ then
    match (← peek).token with
    | .mark .leftParen | .mark .dot => return true
    | _ => return false
  else return false

/-- Read a statement. -/
def statement (rules : Rules) (declarations : Bool) : Parse Node := do
  if ← atImportExpression then return (← importEvaluation rules).asStatement
  if (← atWord .import_) || (← atWord .export_) then failHere .moduleCodeInScript
  return (← statementForm rules declarations false).asStatement

end AmdKit.Script
