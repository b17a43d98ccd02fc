/-
  AmdKit.Script.Target
  ────────────────────────────────
  **WHAT CAN BE WRITTEN TO.**

  The left side of an assignment and the parameters of an arrow function are
  read as expressions, because only the token after them tells what they are.
  `asAssigned`, `asUpdated`, `asLoopTarget` and `asParameters` turn such an
  expression into the pattern or target that it stands for.

      {a, b: [c = 1]} = d    →    an object pattern that binds a and c
-/
import AmdKit.Script.Binding

namespace AmdKit.Script

open Text (Span)

/-! ## §1. Simple targets. -/

namespace Node

/-- The expression is part of an optional chain. -/
def isOptional (n : Node) : Bool :=
  match n.kind with
  | .optionalMember | .optionalCall => true
  | _ => false

/-- The expression can be assigned to as it stands. -/
def isTarget (strict : Bool) : Node → Bool
  | mk (.reference name) _ _ => !(strict && isRestrictedName name)
  | mk .paren _ [inner] => isTarget strict inner
  | mk .member _ (mk .member span children :: _) => isTarget strict (mk .member span children)
  | mk .member _ (object :: _) => !object.isOptional
  | _ => false

/-! ## §2. Expressions as patterns. -/

/-- What a pattern does with the names in it. -/
inductive Use where
  /-- It writes to what is there. -/
  | assigned
  /-- It introduces them. -/
  | bound
  deriving Repr, DecidableEq

/-- The name that is assigned to, as a binding. -/
def asBinding : Node → Node
  | mk (.target name) span _ => leaf (.binding name) span
  | mk (.reference name) span _ => leaf (.binding name) span
  | n => n

/-- An element of an assigned pattern that is neither a list nor an object nor
has a default value: it has to be a target. -/
def asElementTarget (n : Node) : Parse Node := do
  match n.kind with
  | .member | .call | .construct | .literal | .string _ | .reference _ | .function | .class_
  | .paren | .template =>
    if !n.isTarget (← context).strict then report .notSimpleTarget n.span.start
    return n.asBinding
  | _ => fail .invalidPattern n.span.start

/-- The expression can not be a bound pattern. -/
def refusePattern (n : Node) : Parse Node := do
  if n.kind = .yield_ && (← context).inGenerator then fail .yieldInParameters n.span.start
  fail .invalidPattern n.span.start

/-- A place of a list that is left out. -/
def isHole (n : Node) : Bool := n.kind = .hole

/-- The expression is an assignment. -/
def isAssignment (n : Node) : Bool :=
  match n.kind with
  | .assignment _ => true
  | _ => false

mutual

/-- The pattern that an expression stands for. -/
def asPattern (use : Use) : Node → Parse Node
  | mk (.object comma) span parts => do
    return mk .objectPattern span (← asParts use comma parts)
  | mk (.array comma) span items => do
    return mk .listPattern span (← asItems use comma items)
  | mk (.assignment true) span [left, right] =>
    return mk .defaultPattern span [left.asBinding, right]
  | mk .invalid span parts => return mk .invalid span parts
  | mk kind span parts =>
    match use with
    | .assigned => asElementTarget (mk kind span parts)
    | .bound =>
      match kind with
      | .reference name => return leaf (.binding name) span
      | _ => refusePattern (mk kind span parts)

/-- The patterns that the items of a list stand for. -/
def asItems (use : Use) (comma : Option Span) : List Node → Parse (List Node)
  | [] => return []
  | mk .hole _ _ :: rest => asItems use comma rest
  | mk .spread span [inner] :: rest => do
    if rest.all isHole then
      if inner.isAssignment then report .restDefault span.start
      if let some c := comma then report .commaAfterRest c.start
      return [mk .restPattern inner.span [← asPattern use inner]]
    else
      report .restNotLast span.start
      asItems use comma rest
  | item :: rest => do
    let first ← asPattern use item
    return first :: (← asItems use comma rest)

/-- The parts that the properties of an object stand for. -/
def asParts (use : Use) (comma : Option Span) : List Node → Parse (List Node)
  | [] => return []
  | mk .spread span [inner] :: rest => do
    if !rest.isEmpty then report .restNotLast span.start
    else if let some c := comma then report .commaAfterRest c.start
    let pattern ← match use, inner.kind with
      | .bound, .reference name => pure (leaf (.binding name) inner.span)
      | .bound, _ => do
        report .restNotName span.start
        pure (leaf .invalid span)
      | .assigned, _ => asPattern use inner
    if pattern.kind = .defaultPattern then report .restDefault span.start
    return mk .restPattern span [pattern] :: (← asParts use comma rest)
  | mk (.shorthand name) span _ :: rest => do
    return mk .partPattern span [leaf (.binding name) span] :: (← asParts use comma rest)
  | mk (.shorthandDefault name place) span values :: rest => do
    let part := mk .partPattern span (leaf (.binding name) place :: values)
    return part :: (← asParts use comma rest)
  | mk .property span values :: rest => do
    let part := mk .partPattern span (← asValues use values)
    return part :: (← asParts use comma rest)
  | mk _ span _ :: _ => fail .invalidPattern span.start

/-- The computed key of a property, if there is one, and the pattern that its
value stands for. -/
def asValues (use : Use) : List Node → Parse (List Node)
  | [] => return []
  | [value] => return [← asPattern use value]
  | key :: values => do return key :: (← asValues use values)

end

/-! ## §3. Left sides. -/

/-- A target that is no pattern. -/
def asSimpleTarget (n : Node) : Parse Node := do
  match n.kind with
  | .reference name => return leaf (.target name) n.span
  | .member | .optionalMember | .optionalCall | .paren | .invalid => return n
  | _ => fail .notAssignable n.span.start

/-- The expression is an object or a list. -/
def isContainer (n : Node) : Bool :=
  match n.kind with
  | .object _ | .array _ => true
  | _ => false

/-- Report an expression that can not be assigned to. -/
def checkTarget (n : Node) (issue : Issue) : Parse Unit := do
  if !n.isTarget (← context).strict then report issue n.span.start

/-- The left side of a plain assignment. -/
def asAssigned (n : Node) : Parse Node := do
  if n.isContainer then asPattern .assigned n
  else
    if n.kind ≠ .invalid then n.checkTarget .invalidTarget
    n.asSimpleTarget

/-- The left side of an assignment with an operator. -/
def asUpdated (n : Node) : Parse Node := do
  n.checkTarget .notSimpleTarget
  n.asSimpleTarget

/-- What a loop over values writes to. -/
def asLoopTarget (n : Node) : Parse Node := do
  if n.isContainer then asPattern .assigned n
  else
    if n.kind ≠ .invalid then n.checkTarget .invalidTarget
    return n.asBinding

/-! ## §4. Parameters. -/

mutual

/-- The names that a pattern binds. -/
def boundNames : Node → List (String × Span)
  | mk (.binding name) span _ => [(name, span)]
  | mk .defaultPattern _ (left :: _) => boundNames left
  | mk .listPattern _ parts => boundNamesAll parts
  | mk .objectPattern _ parts => boundNamesAll parts
  | mk .partPattern _ parts => boundNamesAll parts
  | mk .restPattern _ parts => boundNamesAll parts
  | _ => []

/-- The names that patterns bind. -/
def boundNamesAll : List Node → List (String × Span)
  | [] => []
  | n :: ns => boundNames n ++ boundNamesAll ns

end

/-- The parameters that the items between parentheses stand for. -/
def asParameterList (comma : Option Span) : List Node → Parse (List Node)
  | [] => return []
  | [mk .spread span [inner]] => do
    if inner.isAssignment then report .restDefault span.start
    if let some c := comma then report .commaAfterRest c.start
    return [mk .restPattern inner.span [← asPattern .bound inner]]
  | mk .spread span _ :: rest => do
    report .restParameterNotLast span.start
    asParameterList comma rest
  | item :: rest => do
    let first ← asPattern .bound item
    return first :: (← asParameterList comma rest)

/-- The parameters of an arrow function. -/
def asParameters (items : List Node) (comma : Option Span) : Parse (List Node) := do
  let parameters ← asParameterList comma items
  (boundNamesAll parameters).forM fun (name, span) => do
    if isRestrictedName name then noteStrict ⟨.evalOrArguments, span.start⟩
  return parameters

/-! ## §5. Misplaced default values. -/

mutual

/-- Offsets of the shorthand properties with a default value inside of an
expression, outside of the functions in it. -/
def misplacedDefaults : Node → List Nat
  | mk .function _ _ => []
  | mk .arrow _ _ => []
  | mk (.shorthandDefault _ _) span _ => [span.start]
  | mk _ _ children => misplacedDefaultsAll children

/-- Offsets of such properties inside of several expressions. -/
def misplacedDefaultsAll : List Node → List Nat
  | [] => []
  | n :: ns => misplacedDefaults n ++ misplacedDefaultsAll ns

end

/-- Report the shorthand properties with a default value that did not turn out
to be patterns. -/
def verify (n : Node) : Parse Node := do
  n.misplacedDefaults.forM fun offset => report .assignProperty offset
  return n

end Node

end AmdKit.Script
