/-
  AmdKit.Script.Literal
  ────────────────────────────────
  **LISTS, OBJECTS, TEMPLATES AND REGULAR EXPRESSIONS.**

  Lists and objects remember the comma after their last item, because the
  pattern that they may turn out to be can forbid it.
-/
import AmdKit.Script.Class

namespace AmdKit.Script

open Text (Span)

/-! ## §1. Lists. -/

/-- Read an expression or a spread. -/
def spreadable (rules : Rules) : Parse Node := do
  let start ← position
  if ← eatMark .ellipsis then
    let inner ← withIn true (rules .assignment)
    return .mk .spread ⟨start, inner.span.stop⟩ [inner]
  else rules .assignment

/-- Read a list. -/
def listLiteral (rules : Rules) : Parse Node := do
  let start ← position
  bump
  let (items, comma) ← iterate (fun (items, comma) => do
    if (← atEnd) || (← atMark .rightBracket) then return ((items, comma), true)
    let here ← position
    if ← eatMark .comma then return ((items ++ [Node.leaf .hole ⟨here, here⟩], comma), false)
    let item ← withIn true (spreadable rules)
    if ← atMark .rightBracket then return ((items ++ [item], comma), false)
    expectMark .comma
    let last ← previous
    let ends ← atMark .rightBracket
    return ((items ++ [item], if ends then some last else comma), false))
    (([] : List Node), (none : Option Span))
  expectMark .rightBracket
  return .mk (.array comma) (← spanFrom start) items

/-! ## §2. Objects. -/

/-- Read a property that is only a word, and perhaps a default value. -/
def shorthand (rules : Rules) (start : Nat) (text : String) (nameSpan : Span) : Parse Node := do
  if (← context).reserves text then report .reservedShorthand nameSpan.start
  if ← eatMark .assign then
    let value ← withIn true (rules .assignment)
    return .mk (.shorthandDefault text nameSpan) (← spanFrom start) [value]
  else return .leaf (.shorthand text) nameSpan

/-- Read an accessor or an asynchronous method after its `get`, `set` or `async`. -/
def markedMethod (rules : Rules) (start : Nat) (text : String) : Parse Node := do
  let isGenerator ← if text = "async" then eatMark (.operator .times) else pure false
  let (name, span) ← propertyName rules
  match text with
  | "get" => method rules start name.key false false (getterParameters span.start)
  | "set" => method rules start name.key false false (setterParameters span.start)
  | _ => method rules start name.key true isGenerator anyParameters

/-- Read a property of an object. -/
def objectProperty (rules : Rules) : Parse Node := do
  let start ← position
  if ← eatMark .ellipsis then
    let inner ← withIn true (rules .assignment)
    return .mk .spread (← spanFrom start) [inner]
  if ← eatMark (.operator .times) then
    let (name, _) ← propertyName rules
    return ← method rules start name.key false true anyParameters
  let (name, nameSpan) ← propertyName rules
  if ← eatMark .colon then
    let value ← withIn true (rules .assignment)
    return .mk .property (← spanFrom start) (name.key ++ [value])
  if ← atMark .leftParen then
    return ← method rules start name.key false false anyParameters
  match name with
  | .word text =>
    match ← token with
    | .mark .assign | .mark .comma | .mark .rightBrace => shorthand rules start text nameSpan
    | _ =>
      if text ∈ ["get", "set", "async"] then markedMethod rules start text
      else unexpected "... , *,  (, [, :, , ?, = or an identifier"
  | _ => unexpected "... , *,  (, [, :, , ?, = or an identifier"

/-- Read an object. -/
def objectLiteral (rules : Rules) : Parse Node := do
  let start ← position
  let (parts, comma) ← bracedParts (objectProperty rules)
  return .mk (.object comma) (← spanFrom start) parts

/-! ## §3. Templates. -/

/-- Read the text of a template after the current token, up to a placeholder or
the end.  The result tells whether it is a placeholder.  Only a tagged template
may have an escape that means nothing. -/
def templateText (tagged : Bool) : Parse Bool := do
  let s ← get
  s.current.issues.forM noteIssue
  let (stop, fault, i) := templatePiece s.rest.fuel none s.rest
  match stop with
  | .finish =>
    modify fun t =>
      { t with
        previous := s.current.span, start := i, rest := i
        current := ⟨.finish, ⟨i.offset, i.offset⟩, false, []⟩ }
    throw ⟨.unterminatedTemplate, s.current.span.start⟩
  | .backquote =>
    modify fun t =>
      { t with
        previous := ⟨s.rest.offset, i.offset⟩, start := i, rest := i.next
        current := ⟨.mark .backquote, ⟨i.offset, i.next.offset⟩, false, []⟩ }
  | .placeholder =>
    let next := lex false (i.skip 2)
    modify fun t =>
      { t with
        previous := ⟨i.offset, i.offset + 2⟩, start := next.start, rest := next.after
        current := next.lexeme }
  if !tagged then
    if let some f := fault then throw f
  return stop = .placeholder

/-- Read the expressions of a template at its opening quote. -/
def templateParts (rules : Rules) (tagged : Bool) : Parse (List Node) := do
  let more ← templateText tagged
  let (parts, _) ← iterate (fun (parts, more) => do
    if !more then return ((parts, more), true)
    let part ← withIn true (expression rules)
    if ← atMark .rightBrace then return ((parts ++ [part], ← templateText tagged), false)
    expectMark .rightBrace
    return ((parts, more), true)) (([] : List Node), more)
  expectMark .backquote
  return parts

/-- Read a template. -/
def templateLiteral (rules : Rules) : Parse Node := do
  let start ← position
  let parts ← templateParts rules false
  return .mk .template (← spanFrom start) parts

/-! ## §4. Regular expressions. -/

/-- Read a regular expression at the current token, whose first slash looks
like an operator until it is read.  Nothing can be read after one that has no
end. -/
def regexLiteral : Parse Node := do
  let s ← get
  s.current.issues.forM noteIssue
  match readRegex s.start with
  | (.error fault, _) =>
    modify fun t =>
      { t with
        previous := s.current.span, current := ⟨.bad fault, s.current.span, false, []⟩
        stuck := true }
    throw fault
  | (.ok faults, after) =>
    let next := lex false after
    modify fun t =>
      { t with
        previous := ⟨s.start.offset, after.offset⟩, current := next.lexeme, start := next.start
        rest := next.after }
    faults.forM note
    return .leaf .literal (← previous)

end AmdKit.Script
