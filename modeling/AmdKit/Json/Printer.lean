/-
  AmdKit.Json.Printer
  ────────────────────────────────
  **WRITING JSON.**

  `quoted` writes a string: a quote, a backslash and the control characters
  below the space are escaped, and nothing else is.  `compact` writes a value
  without blanks, `pretty` one entry on each line with an indent of two spaces.
-/
import AmdKit.Json.Basic
import AmdKit.Number.Shortest

namespace AmdKit.Json

/-! ## §1. Strings. -/

/-- The hexadecimal digit of a number below sixteen. -/
def hexDigit (n : Nat) : Char :=
  if n < 10 then Char.ofNat (48 + n) else Char.ofNat (87 + n)

/-- A character as it stands inside a written string. -/
def escape (c : Char) : List Char :=
  if c = '"' then ['\\', '"']
  else if c = '\\' then ['\\', '\\']
  else if c = '\n' then ['\\', 'n']
  else if c = '\r' then ['\\', 'r']
  else if c = '\t' then ['\\', 't']
  else if c = '\x08' then ['\\', 'b']
  else if c = '\x0c' then ['\\', 'f']
  else if c.toNat < 0x20 then
    ['\\', 'u', '0', '0', hexDigit (c.toNat / 16), hexDigit (c.toNat % 16)]
  else [c]

/-- The string between quotes. -/
def quoted (s : String) : List Char :=
  '"' :: (s.toList.flatMap escape ++ ['"'])

/-- The strings, each quoted, with commas between them. -/
def quotedList (ss : List String) : List Char :=
  [','].intercalate (ss.map quoted)

/-! ## §2. Values. -/

/-- The text of a number. -/
def numeral : Numeral → List Char
  | .integer n => (toString n).toList
  | .double true x => '-' :: x.dataText
  | .double false x => x.dataText

mutual

/-- A value without blanks. -/
def compact : Json → List Char
  | .null => "null".toList
  | .bool true => "true".toList
  | .bool false => "false".toList
  | .number n => numeral n
  | .string s => quoted s
  | .array items => '[' :: ([','].intercalate (compactItems items) ++ [']'])
  | .object members => '{' :: ([','].intercalate (compactMembers members) ++ ['}'])

/-- Each value without blanks. -/
def compactItems : List Json → List (List Char)
  | [] => []
  | x :: xs => compact x :: compactItems xs

/-- Each member without blanks. -/
def compactMembers : List (String × Json) → List (List Char)
  | [] => []
  | (name, x) :: xs => (quoted name ++ ':' :: compact x) :: compactMembers xs

end

/-- A new line with the indent of the given depth. -/
def newLine (depth : Nat) : List Char :=
  '\n' :: List.replicate (2 * depth) ' '

/-- Entries on a line each, between an opening and a closing bracket. -/
def block (depth : Nat) (opening closing : Char) (entries : List (List Char)) : List Char :=
  if entries.isEmpty then [opening, closing]
  else
    opening :: (newLine (depth + 1) ++ (',' :: newLine (depth + 1)).intercalate entries
      ++ newLine depth ++ [closing])

mutual

/-- A value over several lines, its first line at the given depth. -/
def prettyAt (depth : Nat) : Json → List Char
  | .null => "null".toList
  | .bool true => "true".toList
  | .bool false => "false".toList
  | .number n => numeral n
  | .string s => quoted s
  | .array items => block depth '[' ']' (prettyItems (depth + 1) items)
  | .object members => block depth '{' '}' (prettyMembers (depth + 1) members)

/-- Each value over several lines. -/
def prettyItems (depth : Nat) : List Json → List (List Char)
  | [] => []
  | x :: xs => prettyAt depth x :: prettyItems depth xs

/-- Each member over several lines. -/
def prettyMembers (depth : Nat) : List (String × Json) → List (List Char)
  | [] => []
  | (name, x) :: xs =>
    (quoted name ++ ':' :: ' ' :: prettyAt depth x) :: prettyMembers depth xs

end

/-- The text of a value without blanks. -/
def render (v : Json) : String := String.ofList (compact v)

/-- The text of a value with an entry on each line. -/
def renderPretty (v : Json) : String := String.ofList (prettyAt 0 v)

end AmdKit.Json
