/-
  AmdKit.Script.Parse
  ────────────────────────────────
  **THE PARSER'S STATE AND ITS FIRST STEPS.**

  A parser reads tokens one at a time and can look at the next one.  A fault
  that it can go on after is noted in the state; one that it can not is thrown,
  and the state stays where the fault was found, because a caller may go on
  from there.
-/
import AmdKit.Script.Lexer
import AmdKit.Script.Node

namespace AmdKit.Script

open Text (Span)

/-! ## §1. State. -/

/-- What surrounds the code that is being read. -/
structure Context where
  /-- The code is strict. -/
  strict : Bool := false
  /-- The code is a module. -/
  module : Bool := false
  /-- No function is around the code. -/
  topLevel : Bool := false
  /-- The code is in the body of a function. -/
  inFunction : Bool := false
  /-- The code is in the body of a function that is no arrow function. -/
  inOrdinaryFunction : Bool := false
  /-- The function around the code is asynchronous. -/
  inAsync : Bool := false
  /-- The function around the code is a generator. -/
  inGenerator : Bool := false
  /-- The code is among the parameters of a function. -/
  inParameters : Bool := false
  /-- The code is in a member of a class, and in no function of it. -/
  inField : Bool := false
  /-- The code is in a static block. -/
  inStaticBlock : Bool := false
  /-- The operator `in` may stand here. -/
  allowsIn : Bool := false
  /-- A `break` may stand here. -/
  allowsBreak : Bool := false
  /-- A `continue` may stand here. -/
  allowsContinue : Bool := false
  /-- The code is the head of a `for`. -/
  inForHead : Bool := false
  /-- The code is the head of a `for await`. -/
  inForAwaitHead : Bool := false
  deriving Repr, DecidableEq

/-- What a parser has read and found so far. -/
structure State where
  /-- The token that is read next. -/
  current : Lexeme
  /-- The input at which it begins. -/
  start : Input
  /-- The input after it. -/
  rest : Input
  /-- Where the token before stands. -/
  previous : Span
  /-- The offset of the end of the script. -/
  finish : Nat
  /-- What surrounds the current token. -/
  context : Context
  /-- The current token can not be read, and so nothing after it. -/
  stuck : Bool := false
  /-- The labels of the statements around it. -/
  labels : List String := []
  /-- Where an arrow function may begin. -/
  arrowStart : Option Nat := none
  /-- Something was found that only a module may have. -/
  moduleItem : Bool := false
  /-- The faults noted so far, the latest first. -/
  faults : List Fault := []
  /-- Faults that count if the script is a module, the latest first. -/
  moduleFaults : List Fault := []

/-- A parser. -/
abbrev Parse := EStateM Fault State

/-! ## §2. Faults. -/

/-- Note a fault. -/
def note (fault : Fault) : Parse Unit :=
  modify fun s => { s with faults := fault :: s.faults }

/-- Note a fault that counts in strict code. -/
def noteStrict (fault : Fault) : Parse Unit :=
  modify fun s =>
    if s.context.strict then { s with faults := fault :: s.faults }
    else { s with moduleFaults := fault :: s.moduleFaults }

/-- Note a fault that counts in modules. -/
def noteInModule (fault : Fault) : Parse Unit :=
  modify fun s =>
    if s.context.module then { s with faults := fault :: s.faults }
    else { s with moduleFaults := fault :: s.moduleFaults }

/-- Note an issue of a token. -/
def noteIssue : Severity × Fault → Parse Unit
  | (.always, fault) => note fault
  | (.strict, fault) => noteStrict fault
  | (.inModule, fault) => noteInModule fault

/-! ## §3. Tokens. -/

/-- The current token. -/
def token : Parse Token := return (← get).current.token

/-- What surrounds the current token. -/
def context : Parse Context := return (← get).context

/-- Go to the token after the current one. -/
def bump : Parse Unit := do
  let s ← get
  if s.current.token = .finish || s.stuck then return ()
  s.current.issues.forM noteIssue
  let next := lex false s.rest
  modify fun t =>
    { t with
      previous := s.current.span, current := next.lexeme, start := next.start, rest := next.after }

/-- The token after the current one. -/
def peek : Parse Lexeme := return (lex false (← get).rest).lexeme

/-- Note the fault of something that is no token, and go past it. -/
def dropBad : Parse Unit := do
  match ← token with
  | .bad fault =>
    bump
    note fault
  | _ => return ()

/-- Stop with an issue. -/
def fail {α : Type} (issue : Issue) (offset : Nat) : Parse α := do
  dropBad
  throw ⟨issue, offset⟩

/-- Note an issue and go on. -/
def report (issue : Issue) (offset : Nat) : Parse Unit := do
  dropBad
  note ⟨issue, offset⟩

/-- The current token, which must be one. -/
def required : Parse Token := do
  match ← token with
  | .finish => throw ⟨.unexpectedEnd, (← get).finish⟩
  | .bad fault =>
    bump
    throw fault
  | t => return t

/-- Where the current token begins; at the end, where the last one ends. -/
def position : Parse Nat := do
  let s ← get
  if s.current.token = .finish then return s.previous.stop else return s.current.span.start

/-- Where the current token begins; at the end, where the last one does. -/
def currentStart : Parse Nat := do
  let s ← get
  if s.current.token = .finish then return s.previous.start else return s.current.span.start

/-- Where the token before stands. -/
def previous : Parse Span := return (← get).previous

/-- The range from an offset to the end of the token before. -/
def spanFrom (start : Nat) : Parse Span := return ⟨start, (← get).previous.stop⟩

/-- Stop with an issue at the current token. -/
def failHere {α : Type} (issue : Issue) : Parse α := do
  fail issue (← currentStart)

/-- Note an issue at the current token. -/
def reportHere (issue : Issue) : Parse Unit := do
  report issue (← currentStart)

/-- Stop because something else is wanted. -/
def unexpected {α : Type} (wanted : String) : Parse α := do
  failHere (.unexpected (← token).text wanted)

/-! ## §4. Words and marks. -/

/-- The current token is the mark. -/
def atMark (m : Mark) : Parse Bool := return (← token) = .mark m

/-- The current token is the word. -/
def atWord (w : Word) : Parse Bool := return (← token) = .word w

/-- Nothing is left. -/
def atEnd : Parse Bool := return (← token) = .finish

/-- A line ended before the current token. -/
def afterLineBreak : Parse Bool := return (← get).current.lineBreak

/-- Go past the token if it is the current one. -/
def eatToken (t : Token) : Parse Bool := do
  if (← token) = t then
    bump
    return true
  else return false

/-- Go past the mark if it stands here. -/
def eatMark (m : Mark) : Parse Bool := eatToken (.mark m)

/-- Go past the word if it stands here. -/
def eatWord (w : Word) : Parse Bool := eatToken (.word w)

/-- Go past the mark, which must stand here. -/
def expectMark (m : Mark) : Parse Unit := do
  unless ← eatMark m do
    failHere (.expected m.text (← token).text)

/-- Go past the word, which must stand here. -/
def expectWord (w : Word) : Parse Unit := do
  unless ← eatWord w do
    failHere (.expected w.text (← token).text)

/-- A statement can end here: at a semicolon, the end, a closing brace, or
after a line break. -/
def atSemicolon : Parse Bool := do
  match ← token with
  | .finish | .mark .semicolon | .mark .rightBrace => return true
  | _ => afterLineBreak

/-- Go past a semicolon, which may be left out where a statement can end. -/
def eatSemicolon : Parse Bool := do
  if ← eatMark .semicolon then return true else atSemicolon

/-- Go past a semicolon, which must stand here unless it may be left out. -/
def expectSemicolon : Parse Unit := do
  unless ← eatSemicolon do
    failHere (.expected (Mark.text .semicolon) (← token).text)

/-! ## §5. Combinators. -/

/-- Run a parser in another context, and return to this one. -/
def within {α : Type} (change : Context → Context) (p : Parse α) : Parse α := fun s =>
  match p { s with context := change s.context } with
  | .ok a t => .ok a { t with context := s.context }
  | .error e t => .error e { t with context := s.context }

/-- Run a parser where the operator `in` may stand, or may not. -/
def withIn {α : Type} (allowed : Bool) (p : Parse α) : Parse α :=
  within (fun c => { c with allowsIn := allowed }) p

/-- More than the number of tokens that are left. -/
def tokensLeft : Parse Nat := do
  let s ← get
  return s.finish - s.current.span.start + 3

/-- Run a parser until it returns nothing, at most as often as the fuel says. -/
def manyFrom {α : Type} (p : Parse (Option α)) : Nat → Parse (List α)
  | 0 => do throw ⟨.unexpectedEnd, (← get).finish⟩
  | fuel + 1 => do
    match ← p with
    | none => return []
    | some a => return a :: (← manyFrom p fuel)

/-- Run a parser until it returns nothing.  Each run but the last has to go
past a token. -/
def many {α : Type} (p : Parse (Option α)) : Parse (List α) := do
  manyFrom p (← tokensLeft)

/-- Repeat a step on a value until it says that it is done. -/
def iterateFrom {α : Type} (step : α → Parse (α × Bool)) : Nat → α → Parse α
  | 0, _ => do throw ⟨.unexpectedEnd, (← get).finish⟩
  | fuel + 1, a => do
    let (a, done) ← step a
    if done then return a else iterateFrom step fuel a

/-- Repeat a step on a value until it says that it is done.  Each step but the
last has to go past a token. -/
def iterate {α : Type} (step : α → Parse (α × Bool)) (a : α) : Parse α := do
  iterateFrom step (← tokensLeft) a

/-! ## §6. Grammar. -/

/-- The parts of the grammar that contain each other. -/
inductive Rule where
  /-- An expression without a comma at its outside. -/
  | assignment
  /-- An operand of a binary operator. -/
  | unary
  /-- A call, a member or something simpler. -/
  | leftHand
  /-- What stands after a `new`, or a member without a call. -/
  | member
  /-- A name or a pattern that binds names. -/
  | pattern
  /-- A statement where no declaration may stand. -/
  | statement
  /-- A statement where a declaration may stand. -/
  | item
  deriving Repr, DecidableEq

/-- A parser for each part. -/
abbrev Rules := Rule → Parse Node

/-- Read an expression. -/
def expression (rules : Rules) : Parse Node := do
  let first ← rules .assignment
  if ← atMark .comma then
    let more ← many do
      if ← eatMark .comma then return some (← rules .assignment) else return none
    return .mk .sequence (← spanFrom first.span.start) (first :: more)
  else return first

end AmdKit.Script
