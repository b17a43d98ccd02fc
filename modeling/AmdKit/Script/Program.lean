/-
  AmdKit.Script.Program
  ────────────────────────────────
  **READING A SCRIPT.**

  `parse` ties the grammar together and reads a whole script.  A byte order mark
  and a line that names an interpreter are passed over; offsets count from the
  character after the mark.  The first fault that the parser could not go on
  after rejects the script, and otherwise the first one that it noted.
-/
import AmdKit.Script.Module
import AmdKit.Text.Bytes

namespace AmdKit.Script

open Text (Span)

/-! ## §1. The grammar. -/

/-- The parser for a part of the grammar, when the parts inside of it are read
by `rules`. -/
def grammar (rules : Rules) : Rules
  | .assignment => assignmentExpression rules
  | .unary => unaryExpression rules
  | .leftHand => leftHandExpression rules
  | .member => memberExpression rules
  | .pattern => pattern rules
  | .statement => statement rules false
  | .item => statement rules true

/-- The grammar, with parts inside of each other to a certain depth. -/
def grammarTo : Nat → Rules
  | 0 => fun _ => do throw ⟨.unexpectedEnd, (← get).finish⟩
  | depth + 1 => fun rule => grammar (grammarTo depth) rule

/-! ## §2. Scripts. -/

/-- The input after a line in front that names an interpreter. -/
def skipInterpreter (i : Input) : Input :=
  if i.startsWith ['#', '!'] then i.skipLine else i

/-- The state before a script is read. -/
def State.initial (text : List Char) : State :=
  let finish := Text.byteLength text
  let first := lex true (skipInterpreter ⟨text, 0, finish⟩)
  { current := first.lexeme, start := first.start, rest := first.after, previous := ⟨0, 0⟩
    finish, context := { topLevel := true } }

/-- Read the items of a script, and the issues at its end. -/
def topLevelItems (rules : Rules) : Parse (List Node) := do
  let items ← statements (topLevelItem rules) atEnd true
  (← get).current.issues.forM noteIssue
  return items

/-- The item makes its script a module. -/
def Node.isModuleItem (n : Node) : Bool := n.kind = .importItem || n.kind = .exportItem

/-- Read a script. -/
def parse (text : List Char) : Except Fault Program :=
  let text := match text with
    | '\ufeff' :: rest => rest
    | _ => text
  let depth := 8 * text.length + 64
  match topLevelItems (grammarTo depth) (State.initial text) with
  | .error fault _ => .error fault
  | .ok items s =>
    let isModule := s.moduleItem || items.any Node.isModuleItem
    let faults := if isModule then s.moduleFaults ++ s.faults else s.faults
    match faults.getLast? with
    | some fault => .error fault
    | none => .ok ⟨if isModule then .module else .script, items⟩

end AmdKit.Script
