/-
  AmdKit.Amd.Call
  ────────────────────────────────
  **CALL SITES.**

  A call site is a call of the bare name `define` or `require`.  The call sites
  of a script are collected on a walk over its tree, a call before the calls
  inside of it.  The walk keeps a stack of the statements that it is inside of,
  and notes the innermost one with each call.
-/
import AmdKit.Amd.Source

namespace AmdKit.Amd

open Script (Node)
open Text (Span)

/-! ## §1. Call sites. -/

/-- Which of the two functions is called. -/
inductive CallKind where
  /-- The function `define`. -/
  | define
  /-- The function `require`. -/
  | require
  deriving Repr, DecidableEq

/-- The name of the function. -/
def CallKind.name : CallKind → String
  | .define => "define"
  | .require => "require"

/-- The function that a callee names. -/
def CallKind.ofCallee? (callee : Node) : Option CallKind :=
  match callee.kind with
  | .reference name =>
    if name = CallKind.define.name then some .define
    else if name = CallKind.require.name then some .require
    else none
  | _ => none

/-- What a factory is written as. -/
inductive FactoryKind where
  /-- A function expression. -/
  | function
  /-- An arrow function. -/
  | arrow
  deriving Repr, DecidableEq

/-- The function that a call hands over last. -/
structure Factory where
  /-- What it is written as. -/
  kind : FactoryKind
  /-- Where it stands, without parentheses around it. -/
  span : Span
  /-- The function itself. -/
  node : Node
  deriving Repr

/-- A call site. -/
structure Call where
  /-- Which function is called. -/
  kind : CallKind
  /-- Where the callee stands. -/
  callee : Span
  /-- The range from the end of the callee to the end of the call. -/
  arguments : Span
  /-- Where each argument stands. -/
  argumentSpans : List Span
  /-- The call has a dependency array. -/
  hasArray : Bool
  /-- One of the arguments is a spread. -/
  hasSpread : Bool
  /-- The innermost statement around the call, or else the call itself. -/
  statement : Span
  /-- The last argument, if it is a function. -/
  factory : Option Factory
  deriving Repr

/-- The factory `n` bytes further on. -/
def Factory.shift (f : Factory) (n : Nat) : Factory := { f with span := f.span.shift n }

/-- The call site `n` bytes further on. -/
def Call.shift (c : Call) (n : Nat) : Call :=
  { c with
    callee := c.callee.shift n
    arguments := c.arguments.shift n
    argumentSpans := c.argumentSpans.map fun s => s.shift n
    statement := c.statement.shift n
    factory := c.factory.map fun f => f.shift n }

/-- Where the last argument stands. -/
def Call.lastArgument? (c : Call) : Option Span := c.argumentSpans.getLast?

/-! ## §2. Arguments. -/

/-- The argument is a string, or the spread of one. -/
def isString : Node → Bool
  | .mk (.string _) _ _ => true
  | .mk .spread _ [.mk (.string _) _ _] => true
  | _ => false

/-- The argument is a list. -/
def isArray (n : Node) : Bool :=
  match n.kind with
  | .array _ => true
  | _ => false

/-- The argument is a spread. -/
def isSpread (n : Node) : Bool := n.kind = .spread

/-- The first argument that is no string is a list.  A string in front is the
name of the module. -/
def declaresArray (arguments : List Node) : Bool :=
  (arguments.find? fun n => !isString n).any isArray

/-- The factory that an argument is, parentheses aside. -/
def Factory.ofArgument? (argument : Node) : Option Factory :=
  let inner := argument.stripParens
  match inner.kind with
  | .function => some ⟨.function, inner.span, inner⟩
  | .arrow => some ⟨.arrow, inner.span, inner⟩
  | _ => none

/-! ## §3. The walk. -/

/-- The call site that a node is, inside of the statement given. -/
def callAt? (statement : Option Span) : Node → Option Call
  | .mk .call span (callee :: arguments) =>
    (CallKind.ofCallee? callee).map fun kind =>
      { kind
        callee := callee.span
        arguments := ⟨callee.span.stop, span.stop⟩
        argumentSpans := arguments.map Node.span
        hasArray := declaresArray arguments
        hasSpread := arguments.any isSpread
        statement := statement.getD span
        factory := arguments.getLast?.bind Factory.ofArgument? }
  | _ => none

/-- What a walk over a tree keeps. -/
structure Walk where
  /-- The statements around the node at hand, the innermost first. -/
  statements : List Span := []
  /-- The call sites that have been met. -/
  calls : List Call := []
  deriving Repr

/-- Go into a statement. -/
def Walk.enter (w : Walk) (statement : Span) : Walk :=
  { w with statements := statement :: w.statements }

/-- Go out of the innermost statement. -/
def Walk.leave (w : Walk) : Walk := { w with statements := w.statements.tail }

/-- Keep the call site that a node is, if it is one. -/
def Walk.note (w : Walk) (n : Node) : Walk :=
  { w with calls := w.calls ++ (callAt? w.statements.head? n).toList }

mutual

/-- Walk over a node and all nodes inside of it. -/
def Walk.visit (w : Walk) : Node → Walk
  | .mk kind span children =>
    match kind with
    | .statement => (Walk.visitAll (w.enter span) children).leave
    | .call => Walk.visitAll (w.note (.mk .call span children)) children
    | _ => Walk.visitAll w children

/-- Walk over several nodes, one after the other. -/
def Walk.visitAll (w : Walk) : List Node → Walk
  | [] => w
  | n :: ns => Walk.visitAll (Walk.visit w n) ns

end

/-- The call sites of a program, by offsets of its script. -/
def callsOf (program : Script.Program) : List Call := (Walk.visitAll {} program.items).calls

/-- The call sites of a source. -/
def Source.calls (s : Source) : List Call :=
  (callsOf s.program).map fun c => c.shift s.base

end AmdKit.Amd
