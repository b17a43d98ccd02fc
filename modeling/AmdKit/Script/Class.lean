/-
  AmdKit.Script.Class
  ────────────────────────────────
  **CLASSES.**

  A class has methods, accessors, fields and static blocks, and may extend
  something.  All of it is strict code.
-/
import AmdKit.Script.Function

namespace AmdKit.Script

open Text (Span)

/-! ## §1. Names of members. -/

/-- The name of a member and its range. -/
structure MemberName where
  /-- The name. -/
  name : PropertyName
  /-- Where it stands. -/
  span : Span

/-- Read the name of a private member. -/
def privateName : Parse (String × Span) := do
  let start ← position
  bump
  let hash ← previous
  if hash.stop < (← position) then fail .spaceAfterHash start
  let (text, _) ← wordName
  return (text, ← spanFrom start)

/-- Read the name of a member. -/
def memberName (rules : Rules) : Parse MemberName := do
  if ← atMark .hash then
    let (text, span) ← privateName
    if text = "constructor" then report .privateConstructor span.start
    return ⟨.hidden text, span⟩
  else
    let (name, span) ← propertyName rules
    return ⟨name, span⟩

/-- The member is named like the constructor. -/
def MemberName.isConstructor (m : MemberName) : Bool :=
  match m.name with
  | .word text => text = "constructor"
  | .string raw => inner raw = "constructor"
  | _ => false

/-- The member is named by a word. -/
def MemberName.isWord (m : MemberName) (w : Word) : Bool :=
  match m.name with
  | .word text => text = w.text
  | _ => false

/-! ## §2. Members. -/

/-- A field ends here.  A line break may end it too if `lineBreaks` says so. -/
def atFieldEnd (lineBreaks : Bool) : Parse Bool := do
  match ← token with
  | .mark .assign | .mark .rightBrace | .mark .semicolon => return true
  | _ => if lineBreaks then atSemicolon else return false

/-- Read the rest of a method. -/
def method (rules : Rules) (start : Nat) (key : List Node) (isAsync isGenerator : Bool)
    (check : List Node → Parse Unit) : Parse Node := do
  let parts ← functionParts rules isAsync isGenerator check
  return .mk .method (← spanFrom start) (key ++ parts)

/-- Read the rest of a field. -/
def field (rules : Rules) (start : Nat) (key : List Node) : Parse Node :=
  within (fun c => { c with allowsIn := true, inField := true }) do
    let value ← if ← eatMark .assign then pure [← rules .assignment] else pure []
    if !(← eatSemicolon) then reportHere .semicolonExpected
    return .mk .field (← spanFrom start) (key ++ value)

/-- Read a static block. -/
def staticBlock (rules : Rules) (start : Nat) : Parse Node :=
  within (fun c => { c with inStaticBlock := true, inField := true }) do
    let body ← block rules .staticBlock false
    return .mk .staticBlock (← spanFrom start) body.children

/-- Read an accessor after its `get` or `set`. -/
def accessor (rules : Rules) (start : Nat) (isGetter isStatic : Bool) : Parse Node := do
  let name ← memberName rules
  if !isStatic && name.isConstructor then report .accessorConstructor name.span.start
  method rules start name.name.key false false
    (if isGetter then getterParameters name.span.start else setterParameters name.span.start)

/-- Read a member after its name; the second result tells whether it is the
constructor. -/
def namedMember (rules : Rules) (start : Nat) (isStatic : Bool) (name : MemberName) :
    Parse (Node × Bool) := do
  let key := name.name.key
  let isConstructor := !isStatic && name.isConstructor
  if ← atMark .leftParen then
    return (← method rules start key false false anyParameters, isConstructor)
  let generatorFollows := (← afterLineBreak) && (← atMark (.operator .times))
  let isGetter := name.isWord .get_
  let isAccessor := (isGetter || name.isWord .set_) && !(← atFieldEnd false) && !generatorFollows
  if isAccessor then
    return (← accessor rules start isGetter isStatic, false)
  if ← atFieldEnd true then
    if isConstructor then fail .fieldConstructor name.span.start
    return (← field rules start key, false)
  if name.isWord .async_ && !(← afterLineBreak) then
    let isGenerator ← eatMark (.operator .times)
    let name ← memberName rules
    if !isStatic && name.isConstructor then report .asyncConstructor name.span.start
    return (← method rules start name.name.key true isGenerator anyParameters, false)
  unexpected "* for generator, private key, identifier or async"

/-- Read a member after the word `static`, if it stands there. -/
def memberAfterStatic (rules : Rules) (start : Nat) (isStatic : Bool) : Parse (Node × Bool) := do
  if isStatic && (← atMark .leftBrace) then return (← staticBlock rules start, false)
  if ← eatMark (.operator .times) then
    let name ← memberName rules
    if !isStatic && name.isConstructor then report .generatorConstructor name.span.start
    return (← method rules start name.name.key false true anyParameters, false)
  namedMember rules start isStatic (← memberName rules)

/-- Read a member; the second result tells whether it is the constructor. -/
def classMember (rules : Rules) : Parse (Node × Bool) := do
  let start ← position
  if ← eatWord .static_ then
    if ← atMark .leftParen then
      return (← method rules start [] false false anyParameters, false)
    if ← atFieldEnd false then return (← field rules start [], false)
    memberAfterStatic rules start true
  else memberAfterStatic rules start false

/-- Read members up to the closing brace. -/
def classMembers (rules : Rules) : Parse (List Node) := do
  let (members, _) ← iterate (fun (members, hasConstructor) => do
    if (← atEnd) || (← atMark .rightBrace) then return ((members, hasConstructor), true)
    if ← eatMark .semicolon then return ((members, hasConstructor), false)
    let (next, isConstructor) ← classMember rules
    if isConstructor && hasConstructor then report .duplicateConstructor next.span.start
    return ((members ++ [next], hasConstructor || isConstructor), false)) (([] : List Node), false)
  return members

/-! ## §3. Classes. -/

/-- Read a class. -/
def classFrom (rules : Rules) (start : Nat) (nameRequired : Bool) : Parse Node :=
  within (fun c => { c with strict := true }) do
    expectWord .class_
    let name ← if nameRequired then
        refuseLet
        some <$> bindingIdentifier
      else bindingIdentifier?
    let declared := name.toList.map fun (text, span) => Node.leaf (.declared text) span
    let parent ← if ← eatWord .extends_ then pure [← rules .leftHand] else pure []
    expectMark .leftBrace
    let members ← classMembers rules
    if ← atEnd then reportHere (.expected (Mark.text .rightBrace) (← token).text)
    else expectMark .rightBrace
    return .mk .class_ (← spanFrom start) (declared ++ members ++ parent)

end AmdKit.Script
