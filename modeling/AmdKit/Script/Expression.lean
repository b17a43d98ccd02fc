/-
  AmdKit.Script.Expression
  ────────────────────────────────
  **EXPRESSIONS.**

  From the inside to the outside: primary expressions, the members and calls
  that follow them, unary operators, binary operators by their precedence,
  conditions, and assignments.  What stands between parentheses is read as a
  list of expressions first; an arrow after it makes it a list of parameters.
-/
import AmdKit.Script.Literal

namespace AmdKit.Script

open Text (Span)

/-! ## §1. Arguments. -/

/-- Read arguments and the parentheses around them.  An import call must not
have a comma after its argument. -/
def arguments (rules : Rules) (isImport : Bool) : Parse (List Node) := do
  expectMark .leftParen
  let (items, _) ← iterate (fun (items, first) => do
    if (← atEnd) || (← atMark .rightParen) then return ((items, first), true)
    if !first then
      expectMark .comma
      if ← atMark .rightParen then
        if isImport then failHere .importTrailingComma
        return ((items, first), true)
    let item ← withIn true (spreadable rules)
    return ((items ++ [item], false), false)) (([] : List Node), true)
  expectMark .rightParen
  return items

/-! ## §2. Arrow functions. -/

/-- Read the rest of an arrow function after its arrow. -/
def arrowFrom (rules : Rules) (start : Nat) (isAsync : Bool) (parameters : List Node) :
    Parse Node := do
  let body ← arrowBody rules isAsync
  return .mk .arrow (← spanFrom start) (parameters ++ [body])

/-- The current token is an operator between two operands, if it is a mark. -/
def atOperator : Parse Bool := do
  match ← token with
  | .mark (.operator _) => return true
  | _ => return false

/-- The operator between two operands that stands here. -/
def operator? : Parse (Option Operator) := do
  match ← token with
  | .mark (.operator op) => return some op
  | .word .instanceof_ => return some .instance_
  | .word .in_ => return if (← context).allowsIn then some .inside else none
  | _ => return none

/-- Report the operator `??` next to a logical one. -/
def checkNullish (op : Operator) (left right : Node) : Parse Unit := do
  let isLogical (n : Node) : Bool := n.kind = .binary .and || n.kind = .binary .or
  if op = .nullish then
    if isLogical left then report .nullishMixed left.span.start
    if isLogical right then report .nullishMixed right.span.start
  if (op = .and || op = .or) && left.kind = .binary .nullish then
    report .nullishMixed left.span.start

/-- Read the operators and operands that follow `left`, as far as they bind
more strongly than `least`. -/
def binaryFrom (rules : Rules) : Nat → Node → Nat → Parse Node
  | 0, _, _ => do throw ⟨.unexpectedEnd, (← get).finish⟩
  | fuel + 1, left, least => do
    match ← operator? with
    | none => return left
    | some op =>
      if op.precedence ≤ least then return left
      if op = .power && (left.kind = .unary || left.kind = .await_) then failHere .unaryPower
      bump
      let operand ← rules .unary
      let right ← binaryFrom rules fuel operand
        (if op = .power then op.precedence - 1 else op.precedence)
      checkNullish op left right
      binaryFrom rules fuel (.mk (.binary op) ⟨left.span.start, right.span.stop⟩ [left, right]) least

/-- Read the operators and operands that follow `left`. -/
def binaryRest (rules : Rules) (left : Node) : Parse Node := do
  binaryFrom rules (← tokensLeft) left 0

/-- The items between parentheses and the comma after the last one. -/
def parenthesized (rules : Rules) : Parse (List Node × Option Span) := do
  expectMark .leftParen
  let (items, comma) ← iterate (fun (items, comma) => do
    if (← atEnd) || (← atMark .rightParen) then return ((items, comma), true)
    let item ← withIn true (spreadable rules)
    if ← atMark .rightParen then return ((items ++ [item], comma), false)
    expectMark .comma
    let last ← previous
    let ends ← atMark .rightParen
    return ((items ++ [item], if ends then some last else comma), false))
    (([] : List Node), (none : Option Span))
  expectMark .rightParen
  return (items, comma)

/-- Read the rest of an arrow function whose parameters have been read as a list
of expressions. -/
def arrowAfter (rules : Rules) (start : Nat) (isAsync canBeArrow : Bool) (items : List Node)
    (comma : Option Span) : Parse Node := do
  if ← afterLineBreak then failHere .lineBreakBeforeArrow
  if !canBeArrow then failHere .arrowNotAllowed
  expectMark .arrow
  let parameters ← Node.asParameters items comma
  let arrow ← arrowFrom rules start isAsync parameters
  let hasBlock := arrow.children.getLast?.any fun n => n.kind = .body
  if hasBlock && (← atOperator) then
    reportHere .semicolonExpected
    let whole ← binaryRest rules arrow
    if !(← atSemicolon) then reportHere .semicolonExpected
    return whole
  else return arrow

/-- Report default values that only a pattern may have in objects directly
between parentheses. -/
def checkParenthesized (items : List Node) : Parse Unit :=
  items.forM fun item => do
    if item.isContainer then
      item.children.forM fun part => do
        match part.kind with
        | .shorthandDefault _ _ => report .assignProperty part.span.start
        | _ => return ()

/-- Read an expression between parentheses, an arrow function, or a call of
`async`, whose range is given. -/
def parenOrArrow (rules : Rules) (canBeArrow : Bool) (async? : Option Span) : Parse Node := do
  let start ← match async? with
    | some span => pure span.start
    | none => position
  let (items, comma) ← parenthesized rules
  if ← atMark .arrow then return ← arrowAfter rules start async?.isSome canBeArrow items comma
  if let some span := async? then
    return .mk .call (← spanFrom start) (.leaf (.reference "async") span :: items)
  let whole ← spanFrom start
  if let some spread := items.find? fun item => item.kind = .spread then
    fail .spreadInParentheses (spread.children.headD spread).span.start
  checkParenthesized items
  match items with
  | [] => fail .emptyParentheses start
  | [item] => return .mk .paren whole [item]
  | first :: _ =>
    let last := items.getLastD first
    return .mk .paren whole [.mk .sequence ⟨first.span.start, last.span.stop⟩ items]

/-! ## §3. Primary expressions. -/

/-- Read what begins with an identifier: itself or an arrow function. -/
def identifierOrArrow (rules : Rules) (start : Nat) (canBeArrow : Bool) : Parse Node := do
  let isWord := (← token) = .word .async_
  let (text, span) ← identifierReference
  let here := Node.leaf (.reference text) span
  let c ← context
  if canBeArrow && isWord && !(← afterLineBreak) && (← atIdentifier) then
    if c.inForHead && (← atWord .of_) && (← peek).token ≠ .mark .arrow then
      if !c.inForAwaitHead then report .forOfAsync (← previous).start
      return here
    let (name, nameSpan) ← bindingIdentifier
    expectMark .arrow
    return ← arrowFrom rules start true [.leaf (.binding name) nameSpan]
  if canBeArrow && !(← afterLineBreak) && (← eatMark .arrow) then
    return ← arrowFrom rules start false [.leaf (.binding text) span]
  return here

/-- Read a word or a mark that is an expression of its own. -/
def simple (kind : Kind) : Parse Node := do
  bump
  return .leaf kind (← previous)

/-- Read a primary expression. -/
def primary (rules : Rules) : Parse Node := do
  let start ← position
  let canBeArrow := (← get).arrowStart = some start
  match ← token with
  | .word .this_ => simple .this_
  | .word .null_ | .word .true_ | .word .false_ => simple .literal
  | .number _ | .bigint _ => simple .literal
  | .string raw => simple (.string raw)
  | .word .function_ => plainFunction rules .expression
  | .word .class_ => classFrom rules start false
  | .mark .leftBracket => listLiteral rules
  | .mark .leftBrace => objectLiteral rules
  | .mark .backquote => templateLiteral rules
  | .mark .leftParen => parenOrArrow rules canBeArrow none
  | .mark (.operator .divide) | .mark (.compound .divide) => regexLiteral
  | .mark .hash =>
    bump
    let _ ← wordName
    return .leaf .privateName (← spanFrom start)
  | t =>
    if ← atAsyncFunction then return ← asyncFunction rules .expression
    if canBeArrow && t = .word .async_ then
      let next ← peek
      if next.token = .mark .leftParen && !next.lineBreak then
        bump
        return ← parenOrArrow rules canBeArrow (some (← previous))
    if t = .word .let_ || (← atIdentifier) then identifierOrArrow rules start canBeArrow
    else failHere .expressionExpected

/-! ## §4. Members and calls. -/

/-- What a member or a call is attached to. -/
inductive Base where
  /-- An expression. -/
  | value (n : Node)
  /-- The word `super` or `import`, which is no expression of its own. -/
  | parent (n : Node)

/-- The node of a base. -/
def Base.node : Base → Node
  | .value n | .parent n => n

/-- Read one member or call that follows a base; nothing if there is none. -/
def subscript (rules : Rules) (base : Base) (callable : Bool) : Parse (Option Node) := do
  let start := base.node.span.start
  let questioned ← eatMark .optionalDot
  let optional := questioned || base.node.isOptional
  let memberKind : Kind := if optional then .optionalMember else .member
  if ← eatMark .leftBracket then
    let key ← withIn true (expression rules)
    expectMark .rightBracket
    return some (.mk memberKind (← spanFrom start) [base.node, key])
  if (callable || questioned) && (← atMark .leftParen) then
    let isImport := base.node.kind = .importWord
    let items ← arguments rules isImport
    let kind : Kind := if optional then .optionalCall else .call
    return some (.mk kind (← spanFrom start) (base.node :: items))
  if ← atMark .backquote then
    if optional then failHere .templateInOptionalChain
    if let .value n := base then
      let parts ← templateParts rules true
      return some (.mk .taggedTemplate (← spanFrom start) (n :: parts))
  if questioned || (← eatMark .dot) then
    if ← atMark .hash then let _ ← privateName
    else let _ ← wordName
    return some (.mk memberKind (← spanFrom start) [base.node])
  match base with
  | .value _ => return none
  | .parent _ => failHere .invalidSuper

/-- Read the members and calls that follow a base.  `callable` tells whether a
call may follow without a question mark. -/
def subscripts (rules : Rules) (base : Base) (callable : Bool) : Parse Node := do
  let last ← iterate (fun base => do
    match ← subscript rules base callable with
    | none => return (base, true)
    | some n => return (.value n, false)) base
  return last.node

/-- Read what follows the word `import` in an expression. -/
def importExpression (rules : Rules) (start : Nat) (callable : Bool) : Parse Node := do
  if ← eatMark .dot then
    modify fun s => { s with moduleItem := true }
    let (text, _) ← wordName
    if text ≠ "meta" then unexpected "meta"
    subscripts rules (.value (.leaf .metaProperty (← spanFrom start))) callable
  else subscripts rules (.parent (.leaf .importWord (← spanFrom start))) callable

/-- Read what follows the word `new`. -/
def newExpression (rules : Rules) (start : Nat) : Parse Node := do
  if ← eatMark .dot then
    if !(← eatWord .target_) then unexpected "target"
    let c ← context
    if !c.inOrdinaryFunction && !c.inParameters && !c.inField then
      report .newTargetOutside start
    return ← subscripts rules (.value (.leaf .metaProperty (← spanFrom start))) false
  let callee ← rules .member
  if callee.isOptional then fail .optionalChainAfterNew callee.span.start
  if ← atMark .leftParen then
    let items ← arguments rules false
    subscripts rules (.value (.mk .construct (← spanFrom start) (callee :: items))) false
  else return .mk .construct (← spanFrom start) [callee]

/-- Read what may stand after a `new`: a member without a call, or another `new`. -/
def memberExpression (rules : Rules) : Parse Node := do
  let start ← position
  if ← eatWord .new_ then newExpression rules start
  else if ← eatWord .super_ then
    subscripts rules (.parent (.leaf .super_ (← spanFrom start))) false
  else if ← eatWord .import_ then importExpression rules start false
  else
    let base ← primary rules
    if base.kind = .arrow then return base else subscripts rules (.value base) false

/-- Read a call, a member or something simpler. -/
def leftHandExpression (rules : Rules) : Parse Node := do
  let start ← position
  if ← eatWord .super_ then
    return ← subscripts rules (.parent (.leaf .super_ (← spanFrom start))) true
  if ← eatWord .import_ then return ← importExpression rules start true
  let callee ← memberExpression rules
  if callee.kind = .arrow then return callee
  if ← atMark .leftParen then
    let items ← arguments rules false
    let kind : Kind := if callee.isOptional then .optionalCall else .call
    subscripts rules (.value (.mk kind (← spanFrom start) (callee :: items))) true
  else return callee

/-! ## §5. Unary operators. -/

/-- Read an `await` and its operand.  Outside of asynchronous functions the word
is an identifier where no operand can follow. -/
def awaitExpression (rules : Rules) : Parse Node := do
  let start ← position
  bump
  let word ← previous
  if ← atMark (.operator .times) then failHere .awaitStar
  let c ← context
  let alone ← match ← token with
    | .mark .rightParen | .mark .rightBracket | .mark .comma => pure true
    | _ => atSemicolon
  if alone && !c.inAsync then
    if c.module then report .awaitAsName start
    return .leaf (.reference "await") (← spanFrom start)
  if c.topLevel then modify fun s => { s with moduleItem := true }
  if c.inFunction && !c.inAsync then report .awaitInFunction word.start
  if c.inParameters && !c.inFunction then report .awaitInParameters start
  let operand ← rules .unary
  return .mk .await_ (← spanFrom start) [operand]

/-- A unary operator stands here. -/
def atUnaryOperator : Parse Bool := do
  match ← token with
  | .word .delete_ | .word .void_ | .word .typeof_ | .mark (.operator .plus)
  | .mark (.operator .minus) | .mark .tilde | .mark .bang => return true
  | _ => return false

/-- An update operator stands here. -/
def atUpdateOperator : Parse Bool := do
  match ← token with
  | .mark .increment | .mark .decrement => return true
  | _ => return false

/-- Read the operand of a unary operator.  A fault in it is noted, and something
invalid takes its place. -/
def operandOrInvalid (rules : Rules) : Parse Node := do
  let start ← position
  tryCatch (rules .unary) fun fault => do
    report fault.issue fault.offset
    return .leaf .invalid ⟨start, start⟩

/-- Read an operand of a binary operator. -/
def unaryExpression (rules : Rules) : Parse Node := do
  let start ← position
  if ← atUpdateOperator then
    bump
    let operand ← rules .unary
    operand.checkTarget .invalidTarget
    return .mk .update ⟨start, operand.span.stop⟩ [operand]
  if ← atUnaryOperator then
    let isDelete ← atWord .delete_
    bump
    let operand ← operandOrInvalid rules
    if let .reference _ := operand.kind then
      if isDelete then noteStrict ⟨.deleteName, operand.span.start⟩
    return .mk .unary ⟨start, operand.span.stop⟩ [operand]
  if ← atWord .await_ then return ← awaitExpression rules
  let operand ← leftHandExpression rules
  if operand.kind = .arrow || (← afterLineBreak) then return operand
  if ← atUpdateOperator then
    operand.checkTarget .invalidTarget
    bump
    return .mk .update (← spanFrom operand.span.start) [operand]
  return operand

/-! ## §6. Binary operators and conditions. -/

/-- Read operands and the operators between them.  If the first operand is
missing before an operator, that is noted, and something invalid takes its
place. -/
def binaryExpression (rules : Rules) : Parse Node := do
  let left ← tryCatch (rules .unary) fun fault => do
    let _ ← required
    match ← operator? with
    | none => throw fault
    | some _ =>
      reportHere .expressionExpected
      return .leaf .invalid ⟨← currentStart, ← currentStart⟩
  if left.kind = .arrow then return left else binaryRest rules left

/-- Read a condition and its values, or something simpler. -/
def conditionalExpression (rules : Rules) : Parse Node := do
  let start ← position
  let test ← binaryExpression rules
  if test.kind = .arrow then return test
  if ← eatMark .question then
    let yes ← withIn true (rules .assignment)
    expectMark .colon
    let no ← rules .assignment
    return .mk .choice ⟨start, no.span.stop⟩ [test, yes, no]
  else return test

/-! ## §7. Assignments. -/

/-- An expression can begin with the token. -/
def Token.startsExpression : Token → Bool
  | .name _ | .number _ | .bigint _ | .string _ | .bad _ => true
  | .word w =>
    !w.isReserved || w ∈ [.function_, .new_, .this_, .super_, .class_, .import_, .null_, .true_,
      .false_, .typeof_, .void_, .delete_]
  | .mark m =>
    m ∈ [.leftParen, .leftBracket, .leftBrace, .ellipsis, .backquote, .hash, .bang, .tilde,
      .increment, .decrement, .operator .plus, .operator .minus, .operator .divide, .operator .less]
  | .finish => false

/-- Read a `yield` and its value, if it has one. -/
def yieldExpression (rules : Rules) : Parse Node := do
  let start ← position
  bump
  let c ← context
  if c.inParameters && !c.inFunction then fail .yieldInParameters (← previous).start
  let delegates ← atMark (.operator .times)
  if (← atSemicolon) || (!delegates && !(← token).startsExpression) then
    return .leaf .yield_ (← spanFrom start)
  let _ ← eatMark (.operator .times)
  let value ← rules .assignment
  return .mk .yield_ (← spanFrom start) [value]

/-- An arrow function can begin with the token. -/
def Token.startsArrow : Token → Bool
  | .name _ | .mark .leftParen => true
  | .word w => !w.isReserved && w ≠ .let_ && w ≠ .await_
  | _ => false

/-- Read the value that is assigned, if an assignment follows the left side. -/
def assignmentRest (rules : Rules) (start : Nat) (left : Node) : Parse Node := do
  match ← token with
  | .mark .assign =>
    let target ← left.asAssigned
    bump
    let value ← rules .assignment
    return .mk (.assignment true) (← spanFrom start) [target, value]
  | .mark (.compound _) =>
    let target ← left.asUpdated
    bump
    let value ← rules .assignment
    return .mk (.assignment false) (← spanFrom start) [target, value]
  | _ => return left

/-- Read an expression without a comma at its outside. -/
def assignmentExpression (rules : Rules) : Parse Node := do
  if (← context).inGenerator && (← atWord .yield_) then return ← yieldExpression rules
  let first ← required
  let start ← position
  modify fun s => { s with arrowStart := if first.startsArrow then some start else none }
  let left ← conditionalExpression rules
  match left.kind with
  | .arrow | .choice | .binary _ | .unary | .update => return left
  | _ => assignmentRest rules start left

end AmdKit.Script
