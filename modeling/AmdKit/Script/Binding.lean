/-
  AmdKit.Script.Binding
  ────────────────────────────────
  **NAMES AND THE PATTERNS THAT BIND THEM.**

  An identifier is any word that is not reserved where it stands.  A pattern is
  a name, or takes a list or an object apart into patterns; the names in it are
  bound.
-/
import AmdKit.Script.Parse

namespace AmdKit.Script

open Text (Span)

/-! ## §1. Reserved words. -/

/-- The words that strict code reserves for later. -/
def Word.forLater : List Word :=
  [.implements_, .interface_, .package_, .private_, .protected_, .public_]

/-- The text can not be used as an identifier where it stands. -/
def Context.reserves (c : Context) (text : String) : Bool :=
  match Word.ofText? text with
  | none => false
  | some .let_ => c.strict
  | some .await_ => c.inAsync || c.inStaticBlock || c.module
  | some .yield_ => c.inGenerator || c.strict
  | some .enum_ => true
  | some w => w.isReserved || (c.strict && w ∈ Word.forLater)

/-- The token can be used as an identifier where it stands. -/
def Token.isIdentifierIn (t : Token) (c : Context) : Bool :=
  match t.identifier? with
  | none => false
  | some text => !c.reserves text

/-- Strict code must not bind the name. -/
def isRestrictedName (name : String) : Bool := name = "eval" || name = "arguments"

/-! ## §2. Identifiers. -/

/-- Read the name of a property or a similar word, reserved words included. -/
def wordName : Parse (String × Span) := do
  let start ← position
  match (← required).identifier? with
  | none => failHere .identifierExpected
  | some text =>
    bump
    return (text, ← spanFrom start)

/-- Note what strict code has against an identifier that ends here. -/
def checkIdentifier (w : Word) : Parse Unit := do
  let offset := (← previous).start
  if w = .enum_ then report (.reservedInStrict w.text) offset
  else if w ∈ [.yield_, .let_, .static_] ++ Word.forLater then
    dropBad
    noteStrict ⟨.reservedInStrict w.text, offset⟩

/-- Read an identifier.  The arguments tell whether `yield` and `await` are
identifiers. -/
def identifier (yieldAllowed awaitAllowed : Bool) : Parse (String × Span) := do
  let start ← position
  match (← required).identifier? with
  | none => failHere .identifierExpected
  | some text =>
    bump
    let offset := (← previous).start
    let c ← context
    match Word.ofText? text with
    | none =>
      if text = "arguments" && c.inField then report .argumentsInField offset
    | some w =>
      checkIdentifier w
      if w = .await_ then
        if c.inStaticBlock then fail .identifierExpected offset
        if c.module || c.inAsync then fail .awaitAsName offset
        if !awaitAllowed then fail .identifierExpected offset
      else if w = .yield_ then
        if !yieldAllowed then fail .identifierExpected offset
      else if w.isReserved then fail .identifierExpected offset
    return (text, ← spanFrom start)

/-- Read an identifier that is used. -/
def identifierReference : Parse (String × Span) := do
  let c ← context
  identifier (!c.inGenerator) (!c.inAsync)

/-- Read an identifier that is bound. -/
def bindingIdentifier : Parse (String × Span) := do
  let (text, span) ← identifier true true
  if isRestrictedName text then
    dropBad
    noteStrict ⟨.evalOrArguments, span.start⟩
  let c ← context
  if (c.inAsync || c.inStaticBlock) && text = "await" then fail .identifierExpected span.start
  if c.inGenerator && text = "yield" then fail .identifierExpected span.start
  return (text, span)

/-- Stop at the word `let`, which a lexical declaration must not bind. -/
def refuseLet : Parse Unit := do
  if ← atWord .let_ then unexpected "let is reserved in const, let, class declaration"

/-- The current token can be used as an identifier. -/
def atIdentifier : Parse Bool := do return (← token).isIdentifierIn (← context)

/-- Read an identifier that is bound, if one stands here. -/
def bindingIdentifier? : Parse (Option (String × Span)) := do
  if ← atIdentifier then return some (← bindingIdentifier) else return none

/-! ## §3. Property names. -/

/-- The name of a property. -/
inductive PropertyName where
  /-- A word. -/
  | word (text : String)
  /-- A string as it is written. -/
  | string (raw : String)
  /-- A number. -/
  | number
  /-- An expression between brackets. -/
  | computed (key : Node)
  /-- A private name. -/
  | hidden (text : String)

/-- The expression of a computed name. -/
def PropertyName.key : PropertyName → List Node
  | .computed key => [key]
  | _ => []

/-- Read the name of a property and its range. -/
def propertyName (rules : Rules) : Parse (PropertyName × Span) := do
  let start ← position
  match ← required with
  | .string raw =>
    bump
    return (.string raw, ← spanFrom start)
  | .number _ | .bigint _ =>
    bump
    return (.number, ← spanFrom start)
  | .word w =>
    bump
    return (.word w.text, ← spanFrom start)
  | .name text =>
    bump
    return (.word text, ← spanFrom start)
  | .mark .leftBracket =>
    bump
    let key ← withIn true (rules .assignment)
    expectMark .rightBracket
    return (.computed key, ← spanFrom start)
  | _ => unexpected "identifier, string literal, numeric literal or [ for the computed key"

/-! ## §4. Patterns. -/

/-- Read a pattern and the value that it has by default, if there is one. -/
def element (rules : Rules) : Parse Node := do
  let start ← position
  let left ← rules .pattern
  if ← eatMark .assign then
    let right ← withIn true (rules .assignment)
    return .mk .defaultPattern (← spanFrom start) [left, right]
  else return left

/-- Go past the comma after an item of a list, unless the list ends here.  A
comma that follows the last item, which takes what is left, is reported. -/
def commaUnless (close : Mark) (isRest : Bool) : Parse Unit := do
  unless ← atMark close do
    expectMark .comma
    if isRest && (← atMark close) then
      report .commaAfterRest (← previous).start

/-- Read a pattern for a list. -/
def listPattern (rules : Rules) : Parse Node := do
  let start ← position
  bump
  let (items, _) ← iterate (fun (items, rest) => do
    if (← atEnd) || (← atMark .rightBracket) then return ((items, rest), true)
    if ← eatMark .comma then return ((items, rest), false)
    if let some offset := rest then report .restNotLast offset
    let start ← position
    if ← eatMark .ellipsis then
      let inner ← rules .pattern
      let item := Node.mk .restPattern (← spanFrom start) [inner]
      commaUnless .rightBracket true
      return ((items ++ [item], some start), false)
    else
      let item ← element rules
      commaUnless .rightBracket false
      return ((items ++ [item], rest), false)) (([] : List Node), (none : Option Nat))
  expectMark .rightBracket
  return .mk .listPattern (← spanFrom start) items

/-- Read a part of a pattern for an object. -/
def objectPatternPart (rules : Rules) : Parse Node := do
  let start ← position
  if ← eatMark .ellipsis then
    let inner ← rules .pattern
    return .mk .restPattern (← spanFrom start) [inner]
  let (name, nameSpan) ← propertyName rules
  if ← eatMark .colon then
    let value ← element rules
    return .mk .partPattern (← spanFrom start) (name.key ++ [value])
  match name with
  | .word text =>
    let bound := Node.leaf (.binding text) nameSpan
    if ← eatMark .assign then
      let value ← withIn true (rules .assignment)
      return .mk .partPattern (← spanFrom start) [bound, value]
    else
      if (← context).reserves text then report .reservedShorthand nameSpan.start
      return .mk .partPattern (← spanFrom start) [bound]
  | _ => unexpected "an identifier"

/-- Check the parts that take what is left: only the last one may, and it has
to be a name that no comma follows. -/
def checkRestParts (comma : Option Span) : List Node → Parse Unit
  | [] => return ()
  | [.mk .restPattern _ [.mk (.binding _) _ _]] => do
    if let some c := comma then report .commaAfterRest c.start
  | [.mk .restPattern span _] => fail .restNotName span.start
  | [_] => return ()
  | .mk .restPattern span _ :: more => do
    report .restNotLast span.start
    checkRestParts comma more
  | _ :: more => checkRestParts comma more

/-- Read the parts between braces, and the comma after the last one. -/
def bracedParts (part : Parse Node) : Parse (List Node × Option Span) := do
  bump
  iterate (fun (parts, comma) => do
    if ← eatMark .rightBrace then return ((parts, comma), true)
    let next ← part
    if ← atMark .rightBrace then return ((parts ++ [next], comma), false)
    expectMark .comma
    let comma ← previous
    let last ← atMark .rightBrace
    return ((parts ++ [next], if last then some comma else none), false)) (([] : List Node), (none : Option Span))

/-- Read a pattern for an object. -/
def objectPattern (rules : Rules) : Parse Node := do
  let start ← position
  let (parts, comma) ← bracedParts (objectPatternPart rules)
  let span ← spanFrom start
  checkRestParts comma parts
  return .mk .objectPattern span parts

/-- Read a name or a pattern. -/
def pattern (rules : Rules) : Parse Node := do
  match ← required with
  | .word _ | .name _ =>
    let (text, span) ← bindingIdentifier
    return .leaf (.binding text) span
  | .mark .leftBracket => listPattern rules
  | .mark .leftBrace => objectPattern rules
  | _ => unexpected "yield, an identifier, [ or \x7b"

end AmdKit.Script
