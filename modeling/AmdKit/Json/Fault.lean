/-
  AmdKit.Json.Fault
  ────────────────────────────────
  **WHY A TEXT IS NOT THE JSON ASKED FOR.**

  A reader fails with a cause and the number of bytes that lay ahead of it.
  `Failure.ofFault` turns that into the line and the column that a message
  shows: the line counts from one, the column is the number of bytes since the
  last line end.
-/
import AmdKit.Json.Basic
import AmdKit.Number.Shortest
import AmdKit.Text.Bytes
import AmdKit.Text.Shown

namespace AmdKit.Json

/-- What stands where a value of another type is wanted. -/
inductive Found where
  /-- The literal `null`. -/
  | null
  /-- The literal `true` or `false`. -/
  | bool (b : Bool)
  /-- A number. -/
  | number (n : Numeral)
  /-- A string. -/
  | string (s : String)
  /-- The start of a list. -/
  | sequence
  /-- The start of an object. -/
  | map
  deriving Repr, DecidableEq

/-- What is wrong with a text. -/
inductive Cause where
  /-- The text ends where a value should stand. -/
  | endInValue
  /-- The text ends inside an object. -/
  | endInObject
  /-- The text ends inside a list. -/
  | endInList
  /-- The text ends inside a string. -/
  | endInString
  /-- No value begins here. -/
  | expectedValue
  /-- A word other than `null`, `true` and `false`. -/
  | expectedLiteral
  /-- No colon after the name of a member. -/
  | expectedColon
  /-- Neither a comma nor the end of the object after a member. -/
  | expectedCommaOrBrace
  /-- Neither a comma nor the end of the list after an item. -/
  | expectedCommaOrBracket
  /-- The name of a member is no string. -/
  | keyNotString
  /-- A comma without an entry after it. -/
  | trailingComma
  /-- Something after the end of the value. -/
  | trailingCharacters
  /-- A number that is not written as JSON asks for. -/
  | invalidNumber
  /-- A number beyond the largest double. -/
  | numberOutOfRange
  /-- A backslash with something that it does not escape. -/
  | invalidEscape
  /-- The first half of a surrogate pair without a second escape. -/
  | endOfHexEscape
  /-- Half a surrogate pair. -/
  | loneSurrogate
  /-- A control character inside a string. -/
  | controlCharacter
  /-- The brackets are nested too deeply. -/
  | recursionLimit
  /-- A field of a record is given twice. -/
  | duplicateField (name : String)
  /-- A value of the wrong type. -/
  | wrongType (found : Found) (expected : String)
  deriving Repr, DecidableEq

/-- A cause and the number of bytes from where it was found to the end of the text. -/
structure Fault where
  /-- What is wrong. -/
  cause : Cause
  /-- The bytes that lie ahead. -/
  ahead : Nat
  deriving Repr, DecidableEq

/-- The wording of what stands in the place of another type. -/
def Found.message : Found → String
  | .null => "null"
  | .bool true => "boolean `true`"
  | .bool false => "boolean `false`"
  | .number (.integer n) => "integer `" ++ toString n ++ "`"
  | .number (.double negative x) =>
    "floating point `" ++ (if negative then "-" else "") ++ String.ofList x.plainText ++ "`"
  | .string s => "string " ++ Text.shown s
  | .sequence => "sequence"
  | .map => "map"

/-- The wording of a cause. -/
def Cause.message : Cause → String
  | .endInValue => "EOF while parsing a value"
  | .endInObject => "EOF while parsing an object"
  | .endInList => "EOF while parsing a list"
  | .endInString => "EOF while parsing a string"
  | .expectedValue => "expected value"
  | .expectedLiteral => "expected ident"
  | .expectedColon => "expected `:`"
  | .expectedCommaOrBrace => "expected `,` or `\x7d`"
  | .expectedCommaOrBracket => "expected `,` or `]`"
  | .keyNotString => "key must be a string"
  | .trailingComma => "trailing comma"
  | .trailingCharacters => "trailing characters"
  | .invalidNumber => "invalid number"
  | .numberOutOfRange => "number out of range"
  | .invalidEscape => "invalid escape"
  | .endOfHexEscape => "unexpected end of hex escape"
  | .loneSurrogate => "lone leading surrogate in hex escape"
  | .controlCharacter => "control character (\\u0000-\\u001F) found while parsing a string"
  | .recursionLimit => "recursion limit exceeded"
  | .duplicateField name => "duplicate field `" ++ name ++ "`"
  | .wrongType found expected => "invalid type: " ++ found.message ++ ", expected " ++ expected

/-- A cause with its place. -/
structure Failure where
  /-- What is wrong. -/
  cause : Cause
  /-- The line, counted from one. -/
  line : Nat
  /-- The bytes between the start of the line and the place. -/
  column : Nat
  deriving Repr, DecidableEq

/-- The line and column of a byte offset; the offset may lie inside a character. -/
def placeOf (line column : Nat) : List Char → Nat → Nat × Nat
  | _, 0 => (line, column)
  | [], _ + 1 => (line, column)
  | c :: cs, n + 1 =>
    if c = '\n' then placeOf (line + 1) 0 cs n
    else placeOf line (column + min c.utf8Size (n + 1)) cs (n + 1 - c.utf8Size)

/-- The failure that a fault in the given text is. -/
def Failure.ofFault (text : List Char) (fault : Fault) : Failure :=
  let place := placeOf 1 0 text (Text.byteLength text - fault.ahead)
  ⟨fault.cause, place.1, place.2⟩

/-- The wording of a failure. -/
def Failure.message (f : Failure) : String :=
  f.cause.message ++ " at line " ++ toString f.line ++ " column " ++ toString f.column

end AmdKit.Json
