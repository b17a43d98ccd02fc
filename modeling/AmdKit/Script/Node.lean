/-
  AmdKit.Script.Node
  ────────────────────────────────
  **SYNTAX TREES OF SCRIPTS.**

  A node has a kind, a range and children.  The kind says what the node is and
  carries the names that count; everything else about it is in its children,
  which stand in the order in which a tree is walked:

      children follow the text, except that
        a `do` loop has its condition before its body,
        a class has its members before what it extends,
        a template has its expressions only.

  Names come in five kinds.  `reference`, `shorthand` and `target` use a name,
  `binding` and `declared` introduce one.  Property names, labels and private
  names are no nodes.
-/
import AmdKit.Script.Token

namespace AmdKit.Script

open Text (Span)

/-! ## §1. Kinds. -/

/-- What a declaration of variables begins with. -/
inductive VariableKind where
  /-- The word `var`. -/
  | var_
  /-- The word `let`. -/
  | let_
  /-- The word `const`. -/
  | const_
  deriving Repr, DecidableEq

/-- What a node is. -/
inductive Kind where
  -- Statements.
  /-- A statement, wherever one may stand; its child is its form. -/
  | statement
  /-- An empty statement. -/
  | empty
  /-- Statements between braces. -/
  | block
  /-- An expression. -/
  | evaluation
  /-- A declaration of variables; the children are declarators. -/
  | declaration (kind : VariableKind)
  /-- A pattern, and perhaps a value. -/
  | declarator
  /-- A condition, a statement, and perhaps another one. -/
  | conditional
  /-- The parts of the head that are there, and the body. -/
  | forLoop
  /-- What is written, what is walked through, and the body. -/
  | forIn
  /-- What is written, what is walked through, and the body. -/
  | forOf
  /-- A condition and a body. -/
  | whileLoop
  /-- A condition and a body. -/
  | doWhile
  /-- A `return`, perhaps with a value. -/
  | giveBack
  /-- A `throw` with a value. -/
  | raise
  /-- A `break`, perhaps to a label. -/
  | leave (label : Option String)
  /-- A `continue`, perhaps to a label. -/
  | goOn (label : Option String)
  /-- A statement with a label. -/
  | labelled (label : String)
  /-- A value and clauses. -/
  | switch_
  /-- A value unless it is the default clause, and statements. -/
  | clause
  /-- A body, a handler and a finalizer, as far as they are there. -/
  | attempt
  /-- Perhaps a pattern, and a body. -/
  | handler
  /-- An object and a body. -/
  | withScope
  /-- A `debugger`. -/
  | pause
  -- Module items.
  /-- An import. -/
  | importItem
  /-- An export; a declaration or an expression is its child. -/
  | exportItem
  -- Bindings and patterns.
  /-- A name in a pattern. -/
  | binding (name : String)
  /-- The name of a function or a class. -/
  | declared (name : String)
  /-- A pattern for a list. -/
  | listPattern
  /-- A pattern for an object; the children are its parts. -/
  | objectPattern
  /-- A computed key if there is one, and a pattern. -/
  | partPattern
  /-- A pattern and the value that it has by default. -/
  | defaultPattern
  /-- A pattern for what is left. -/
  | restPattern
  -- Functions and classes.
  /-- Perhaps a name, parameters and a body. -/
  | function
  /-- Parameters and a body. -/
  | arrow
  /-- The statements of a function. -/
  | body
  /-- Perhaps a name, the members, and perhaps what is extended. -/
  | class_
  /-- A computed key if there is one, parameters and a body. -/
  | method
  /-- A computed key if there is one, and perhaps a value. -/
  | field
  /-- The statements of a static block. -/
  | staticBlock
  -- Expressions.
  /-- A name that is used. -/
  | reference (name : String)
  /-- A name that is written to. -/
  | target (name : String)
  /-- A property that is named like the variable that it takes its value from. -/
  | shorthand (name : String)
  /-- Such a property with a default value, which only a pattern may have, and
  where its name stands. -/
  | shorthandDefault (name : String) (place : Span)
  /-- A `this`. -/
  | this_
  /-- A `super`. -/
  | super_
  /-- A `new.target` or an `import.meta`. -/
  | metaProperty
  /-- A word, a number or a regular expression. -/
  | literal
  /-- A string as it is written. -/
  | string (raw : String)
  /-- The expressions of a template. -/
  | template
  /-- A function and a template. -/
  | taggedTemplate
  /-- The items of a list, and the last comma if nothing follows it. -/
  | array (comma : Option Span)
  /-- A place of a list that is left out. -/
  | hole
  /-- An object, and the last comma if nothing follows it. -/
  | object (comma : Option Span)
  /-- A computed key if there is one, and a value. -/
  | property
  /-- A spread. -/
  | spread
  /-- An expression between parentheses. -/
  | paren
  /-- A callee and arguments. -/
  | call
  /-- A callee and arguments, in an optional chain. -/
  | optionalCall
  /-- A callee and arguments. -/
  | construct
  /-- The `import` of an import call. -/
  | importWord
  /-- An object, and a computed key if there is one. -/
  | member
  /-- An object, and a computed key if there is one, in an optional chain. -/
  | optionalMember
  /-- An operand. -/
  | unary
  /-- An operand that is changed. -/
  | update
  /-- Two operands. -/
  | binary (op : Operator)
  /-- A condition and two values. -/
  | choice
  /-- What is written, and a value. -/
  | assignment (simple : Bool)
  /-- Expressions with commas between them. -/
  | sequence
  /-- Perhaps a value. -/
  | yield_
  /-- A value. -/
  | await_
  /-- The name of a private member. -/
  | privateName
  /-- Something that a fault keeps from being read. -/
  | invalid
  deriving Repr, DecidableEq

/-! ## §2. Nodes. -/

/-- A node of a syntax tree. -/
inductive Node where
  /-- A kind, a range and children in walking order. -/
  | mk (kind : Kind) (span : Span) (children : List Node)
  deriving Repr

instance : Inhabited Node := ⟨.mk .invalid default []⟩

namespace Node

/-- What the node is. -/
def kind : Node → Kind
  | mk k _ _ => k

/-- Where the node stands. -/
def span : Node → Span
  | mk _ s _ => s

/-- The parts of the node. -/
def children : Node → List Node
  | mk _ _ cs => cs

/-- A node without children. -/
def leaf (kind : Kind) (span : Span) : Node := mk kind span []

/-- The node without the parentheses around it. -/
def stripParens : Node → Node
  | mk .paren _ [inner] => stripParens inner
  | n => n

/-- Where there are no parentheses, there is nothing to leave out. -/
theorem stripParens_eq_self {n : Node} (h : n.kind ≠ .paren) : n.stripParens = n := by
  fun_cases stripParens n with
  | case1 span inner => exact absurd rfl h
  | case2 n => rfl

/-- All parentheses are left out at once. -/
theorem stripParens_stripParens (n : Node) : n.stripParens.stripParens = n.stripParens := by
  fun_induction stripParens n with
  | case1 span inner ih => exact ih
  | case2 n hparen =>
      fun_cases stripParens n with
      | case1 span inner => exact absurd rfl (hparen span inner)
      | case2 n => rfl

mutual

/-- Equality of two trees. -/
def decEq : (n m : Node) → Decidable (n = m)
  | .mk kind span children, .mk kind' span' children' =>
    match (inferInstance : Decidable (kind = kind')),
      (inferInstance : Decidable (span = span')), decEqAll children children' with
    | isTrue hkind, isTrue hspan, isTrue hchildren =>
      isTrue (hkind ▸ hspan ▸ hchildren ▸ rfl)
    | isFalse hkind, _, _ => isFalse fun h => hkind (Node.mk.inj h).1
    | _, isFalse hspan, _ => isFalse fun h => hspan (Node.mk.inj h).2.1
    | _, _, isFalse hchildren => isFalse fun h => hchildren (Node.mk.inj h).2.2

/-- Equality of two lists of trees. -/
def decEqAll : (ns ms : List Node) → Decidable (ns = ms)
  | [], [] => isTrue rfl
  | [], m :: ms => isFalse (List.cons_ne_nil m ms).symm
  | n :: ns, [] => isFalse (List.cons_ne_nil n ns)
  | n :: ns, m :: ms =>
    match decEq n m, decEqAll ns ms with
    | isTrue hhead, isTrue htail => isTrue (hhead ▸ htail ▸ rfl)
    | isFalse hhead, _ => isFalse fun h => hhead (List.cons.inj h).1
    | _, isFalse htail => isFalse fun h => htail (List.cons.inj h).2

end

instance : DecidableEq Node := decEq

end Node

/-! ## §3. Programs. -/

/-- What a script is read as. -/
inductive Goal where
  /-- A script. -/
  | script
  /-- A module. -/
  | module
  deriving Repr, DecidableEq

/-- A script that has been read. -/
structure Program where
  /-- Whether it is a module. -/
  goal : Goal
  /-- Its statements and module items. -/
  items : List Node
  deriving Repr

end AmdKit.Script
