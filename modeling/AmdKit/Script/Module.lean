/-
  AmdKit.Script.Module
  ────────────────────────────────
  **IMPORTS AND EXPORTS.**

  An import or export at the top makes the script a module, and with it strict.
  What an export declares or evaluates is its child, and no statement.
-/
import AmdKit.Script.Statement

namespace AmdKit.Script

open Text (Span)

/-! ## §1. Modules. -/

/-- Read on as a module.  Faults that count in modules only are noted now. -/
def enterModule : Parse Unit :=
  modify fun s =>
    { s with
      context := { s.context with module := true, strict := true }
      faults := s.moduleFaults ++ s.faults, moduleFaults := [] }

/-! ## §2. Names. -/

/-- A name that a module exports. -/
inductive ExportName where
  /-- A word. -/
  | word (text : String)
  /-- A string as it is written. -/
  | string (raw : String)

/-- Read a name that a module exports, and where it stands. -/
def exportName : Parse (ExportName × Span) := do
  match ← token with
  | .string raw =>
    bump
    return (.string raw, ← previous)
  | .word _ | .name _ =>
    let (text, span) ← wordName
    return (.word text, span)
  | _ => unexpected "identifier or string"

/-- Read what stands between braces, with commas between. -/
def braced (part : Parse Unit) : Parse Unit := do
  let _ ← many do
    if (← atEnd) || (← atMark .rightBrace) then return none
    part
    if ← atMark .rightBrace then return none
    expectMark .comma
    return some ()
  expectMark .rightBrace

/-- Read the module that names come from. -/
def fromClause : Parse Unit := do
  expectWord .from_
  match ← required with
  | .string _ => bump
  | _ => unexpected "a string literal"
  expectSemicolon

/-! ## §3. Imports. -/

/-- Read the local name of an import. -/
def importedBinding : Parse Unit :=
  within (fun c => { c with inAsync := false, inGenerator := false }) do
    let _ ← bindingIdentifier

/-- Read a name that is imported, and the local name if it is another one. -/
def importSpecifier : Parse Unit := do
  let (name, span) ← exportName
  if ← eatWord .as_ then
    let _ ← bindingIdentifier
  else
    match name with
    | .word text => if (← context).reserves text then fail .reservedImport span.start
    | .string raw => fail (.importBindingIsString (inner raw)) span.start

/-- Read an import. -/
def importItem : Parse Node := do
  let start ← position
  enterModule
  bump
  match ← token with
  | .string _ =>
    bump
    expectSemicolon
  | _ =>
    if ← atIdentifier then
      importedBinding
      if !(← atWord .from_) then expectMark .comma
    if ← eatMark (.operator .times) then
      expectWord .as_
      importedBinding
    else if ← eatMark .leftBrace then braced importSpecifier
    fromClause
  return .leaf .importItem (← spanFrom start)

/-! ## §4. Exports. -/

/-- Read what is exported under the name `default`. -/
def defaultExport (rules : Rules) : Parse Node := do
  if ← atWord .class_ then classFrom rules (← position) false
  else if ← atAsyncFunction then asyncFunction rules .optional
  else if ← atWord .function_ then plainFunction rules .optional
  else
    let value ← withIn true (rules .assignment)
    expectSemicolon
    return value

/-- Read a name that is exported, and the outside name if it is another one. -/
def exportSpecifier : Parse (ExportName × Span) := do
  let name ← exportName
  if ← eatWord .as_ then
    let _ ← exportName
  return name

/-- Read names between braces that are exported.  Without another module that
they come from, they have to be names of variables. -/
def exportClause : Parse Unit := do
  expectMark .leftBrace
  let names ← many do
    if (← atEnd) || (← atMark .rightBrace) then return none
    let name ← exportSpecifier
    if !(← atMark .rightBrace) then expectMark .comma
    return some name
  expectMark .rightBrace
  if ← atWord .from_ then fromClause
  else
    names.forM fun (name, span) => do
      match name with
      | .word text =>
        if (Word.ofText? text).any Word.isReserved then fail (.exportExpectsFrom text) span.start
      | .string _ => fail .exportBindingIsString span.start
    let _ ← eatSemicolon

/-- Read an export. -/
def exportItem (rules : Rules) : Parse Node := do
  enterModule
  let start ← position
  bump
  let first ← required
  if ← eatMark (.operator .times) then
    if ← eatWord .as_ then
      let _ ← exportName
    fromClause
    return .leaf .exportItem (← spanFrom start)
  if ← eatWord .default_ then
    let inner ← defaultExport rules
    return .mk .exportItem (← spanFrom start) [inner]
  if first = .word .class_ then
    let inner ← classFrom rules (← position) true
    return .mk .exportItem (← spanFrom start) [inner]
  if ← atAsyncFunction then
    let inner ← asyncFunction rules .declaration
    return .mk .exportItem (← spanFrom start) [inner]
  if first = .word .function_ then
    let inner ← plainFunction rules .declaration
    return .mk .exportItem (← spanFrom start) [inner]
  if first = .word .var_ || first = .word .const_ || (← atLet) then
    let inner ← declaration rules false
    return .mk .exportItem (← spanFrom start) [inner]
  exportClause
  return .leaf .exportItem (← spanFrom start)

/-! ## §5. Items. -/

/-- Read a statement, an import or an export at the top of a script. -/
def topLevelItem (rules : Rules) : Parse Node := do
  if ← atImportExpression then return (← importEvaluation rules).asStatement
  if ← atWord .import_ then return ← importItem
  if ← atWord .export_ then return ← exportItem rules
  return (← statementForm rules true true).asStatement

end AmdKit.Script
