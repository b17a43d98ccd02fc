/-
  AmdKit.Script.Token
  ────────────────────────────────
  **TOKENS OF A SCRIPT.**

  A token is a word of the language, another identifier, a literal, a mark, or
  the end of the script.  `Lexeme` puts a token into its place: its range, and
  whether a line ended before it.
-/
import AmdKit.Script.Issue
import AmdKit.Text.Span

namespace AmdKit.Script

open Text (Span)

/-! ## §1. Words. -/

/-- A word that has a meaning somewhere in the language. -/
inductive Word where
  | break_ | case_ | catch_ | class_ | const_ | continue_ | debugger_ | default_ | delete_ | do_
  | else_ | export_ | extends_ | false_ | finally_ | for_ | function_ | if_ | import_ | in_
  | instanceof_ | new_ | null_ | return_ | super_ | switch_ | this_ | throw_ | true_ | try_
  | typeof_ | var_ | void_ | while_ | with_
  | enum_ | await_ | let_ | static_ | yield_
  | implements_ | interface_ | package_ | private_ | protected_ | public_
  | as_ | async_ | from_ | get_ | meta_ | of_ | set_ | target_
  deriving Repr, DecidableEq

/-- The spelling of a word. -/
def Word.text : Word → String
  | .break_ => "break" | .case_ => "case" | .catch_ => "catch" | .class_ => "class"
  | .const_ => "const" | .continue_ => "continue" | .debugger_ => "debugger"
  | .default_ => "default" | .delete_ => "delete" | .do_ => "do" | .else_ => "else"
  | .export_ => "export" | .extends_ => "extends" | .false_ => "false"
  | .finally_ => "finally" | .for_ => "for" | .function_ => "function" | .if_ => "if"
  | .import_ => "import" | .in_ => "in" | .instanceof_ => "instanceof" | .new_ => "new"
  | .null_ => "null" | .return_ => "return" | .super_ => "super" | .switch_ => "switch"
  | .this_ => "this" | .throw_ => "throw" | .true_ => "true" | .try_ => "try"
  | .typeof_ => "typeof" | .var_ => "var" | .void_ => "void" | .while_ => "while"
  | .with_ => "with" | .enum_ => "enum" | .await_ => "await" | .let_ => "let"
  | .static_ => "static" | .yield_ => "yield" | .implements_ => "implements"
  | .interface_ => "interface" | .package_ => "package" | .private_ => "private"
  | .protected_ => "protected" | .public_ => "public" | .as_ => "as" | .async_ => "async"
  | .from_ => "from" | .get_ => "get" | .meta_ => "meta" | .of_ => "of" | .set_ => "set"
  | .target_ => "target"

/-- The words that are never identifiers. -/
def Word.reserved : List Word :=
  [.break_, .case_, .catch_, .class_, .const_, .continue_, .debugger_, .default_, .delete_, .do_,
    .else_, .export_, .extends_, .false_, .finally_, .for_, .function_, .if_, .import_, .in_,
    .instanceof_, .new_, .null_, .return_, .super_, .switch_, .this_, .throw_, .true_, .try_,
    .typeof_, .var_, .void_, .while_, .with_]

/-- The words that are identifiers, everywhere or in most places. -/
def Word.contextual : List Word :=
  [.enum_, .await_, .let_, .static_, .yield_, .implements_, .interface_, .package_, .private_,
    .protected_, .public_, .as_, .async_, .from_, .get_, .meta_, .of_, .set_, .target_]

/-- The word with a spelling. -/
def Word.ofText? (s : String) : Option Word :=
  (Word.reserved ++ Word.contextual).find? fun w => w.text = s

/-- The word is never an identifier. -/
def Word.isReserved (w : Word) : Bool := decide (w ∈ Word.reserved)

/-! ## §2. Marks. -/

/-- An operator between two operands. -/
inductive Operator where
  | equal | notEqual | same | notSame | less | lessEqual | greater | greaterEqual
  | shiftLeft | shiftRight | shiftZero | plus | minus | times | divide | remainder
  | bitOr | bitXor | bitAnd | or | and | power | nullish | inside | instance_
  deriving Repr, DecidableEq

/-- The spelling of an operator. -/
def Operator.text : Operator → String
  | .equal => "==" | .notEqual => "!=" | .same => "===" | .notSame => "!=="
  | .less => "<" | .lessEqual => "<=" | .greater => ">" | .greaterEqual => ">="
  | .shiftLeft => "<<" | .shiftRight => ">>" | .shiftZero => ">>>"
  | .plus => "+" | .minus => "-" | .times => "*" | .divide => "/" | .remainder => "%"
  | .bitOr => "|" | .bitXor => "^" | .bitAnd => "&" | .or => "||" | .and => "&&"
  | .power => "**" | .nullish => "??" | .inside => "in" | .instance_ => "instanceof"

/-- How strongly an operator binds. -/
def Operator.precedence : Operator → Nat
  | .nullish | .or => 1
  | .and => 2
  | .bitOr => 3
  | .bitXor => 4
  | .bitAnd => 5
  | .equal | .notEqual | .same | .notSame => 6
  | .less | .lessEqual | .greater | .greaterEqual | .inside | .instance_ => 7
  | .shiftLeft | .shiftRight | .shiftZero => 8
  | .plus | .minus => 9
  | .times | .divide | .remainder => 10
  | .power => 11

/-- A mark. -/
inductive Mark where
  | leftParen | rightParen | leftBrace | rightBrace | leftBracket | rightBracket
  | semicolon | comma | colon | dot | ellipsis | arrow | question | optionalDot
  | backquote | placeholder | hash | commercialAt | bang | tilde | increment | decrement
  | assign
  /-- An assignment with an operator. -/
  | compound (op : Operator)
  /-- An operator between two operands. -/
  | operator (op : Operator)
  deriving Repr, DecidableEq

/-- The spelling of a mark. -/
def Mark.text : Mark → String
  | .leftParen => "(" | .rightParen => ")" | .leftBrace => "\x7b" | .rightBrace => "\x7d"
  | .leftBracket => "[" | .rightBracket => "]" | .semicolon => ";" | .comma => ","
  | .colon => ":" | .dot => "." | .ellipsis => "..." | .arrow => "=>" | .question => "?"
  | .optionalDot => "?." | .backquote => "`" | .placeholder => "$\x7b" | .hash => "#"
  | .commercialAt => "@" | .bang => "!" | .tilde => "~" | .increment => "++"
  | .decrement => "--" | .assign => "=" | .compound op => op.text ++ "="
  | .operator op => op.text

/-! ## §3. Tokens. -/

/-- A token. -/
inductive Token where
  /-- A word, written without escapes. -/
  | word (w : Word)
  /-- Another identifier. -/
  | name (text : String)
  /-- A mark. -/
  | mark (m : Mark)
  /-- A number as it is written. -/
  | number (raw : String)
  /-- A big integer as it is written. -/
  | bigint (raw : String)
  /-- A string as it is written, with its quotes. -/
  | string (raw : String)
  /-- Something that is no token. -/
  | bad (fault : Fault)
  /-- The end of the script. -/
  | finish
  deriving Repr, DecidableEq

/-- The text between the first and the last character. -/
def inner (raw : String) : String := String.ofList ((raw.toList.drop 1).dropLast)

/-- A token as messages show it. -/
def Token.text : Token → String
  | .word w => w.text
  | .name text => text
  | .mark m => m.text
  | .number raw => "numeric literal (" ++ raw ++ ", " ++ raw ++ ")"
  | .bigint raw => "bigint literal (" ++ raw ++ ", " ++ raw ++ ")"
  | .string raw => "string literal (" ++ inner raw ++ ", " ++ raw ++ ")"
  | .bad _ => "<lexing error>"
  | .finish => "<eof>"

/-- The identifier that a token is, reserved words included. -/
def Token.identifier? : Token → Option String
  | .word w => some w.text
  | .name text => some text
  | _ => none

/-- When an issue of a token counts. -/
inductive Severity where
  /-- Always. -/
  | always
  /-- In strict code. -/
  | strict
  /-- In modules. -/
  | inModule
  deriving Repr, DecidableEq

/-- A token in its place. -/
structure Lexeme where
  /-- The token. -/
  token : Token
  /-- Where it stands. -/
  span : Span
  /-- A line ended between the token before and this one. -/
  lineBreak : Bool
  /-- Issues of the token that do not keep it from being read. -/
  issues : List (Severity × Fault)
  deriving Repr, DecidableEq

end AmdKit.Script
