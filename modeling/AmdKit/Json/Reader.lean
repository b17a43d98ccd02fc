/-
  AmdKit.Json.Reader
  ────────────────────────────────
  **READING JSON.**

  `parse` reads a whole text as one value.  Of two members with one name the
  first gives the position and the last the value.  Brackets may be nested 127
  deep.  The readers take a fuel that bounds their calls; `parse` gives one
  that the length of the text cannot use up.
-/
import AmdKit.Json.Fault

namespace AmdKit.Json

open Text (byteLength)
open Number (Binary64)

/-! ## §1. Characters. -/

/-- The blanks between tokens. -/
def isSpace (c : Char) : Bool :=
  c == ' ' || c == '\n' || c == '\t' || c == '\r'

/-- The text from its first character that is no blank. -/
def skipSpace (cs : List Char) : List Char := cs.dropWhile isSpace

/-- Fail where the given characters begin. -/
def failBefore {α : Type} (cause : Cause) (cs : List Char) : Except Fault α :=
  .error ⟨cause, byteLength cs⟩

/-- Fail one byte after the given characters begin, or at the end of the text. -/
def failAt {α : Type} (cause : Cause) (cs : List Char) : Except Fault α :=
  .error ⟨cause, byteLength cs - 1⟩

/-- The rest after the characters of a literal; the text ended, or the first
character that differs is to blame. -/
def literal : List Char → List Char → Except Fault (List Char)
  | [], rest => .ok rest
  | _ :: _, [] => failBefore .endInValue []
  | e :: es, c :: cs => if c = e then literal es cs else failAt .expectedLiteral (c :: cs)

/-! ## §2. Strings. -/

/-- The value of a hexadecimal digit. -/
def hexValue? (c : Char) : Option Nat :=
  if '0' ≤ c ∧ c ≤ '9' then some (c.toNat - 48)
  else if 'a' ≤ c ∧ c ≤ 'f' then some (c.toNat - 87)
  else if 'A' ≤ c ∧ c ≤ 'F' then some (c.toNat - 55)
  else none

/-- The value of four hexadecimal digits. -/
def hexValue4? (a b c d : Char) : Option Nat := do
  let a ← hexValue? a
  let b ← hexValue? b
  let c ← hexValue? c
  let d ← hexValue? d
  return ((a * 16 + b) * 16 + c) * 16 + d

/-- The four hexadecimal digits of an escape. -/
def hexEscape (cs : List Char) : Except Fault (Nat × List Char) :=
  if byteLength (cs.take 4) < 4 then failBefore .endInString []
  else
    match cs with
    | a :: b :: c :: d :: rest =>
      match hexValue4? a b c d with
      | some n => .ok (n, rest)
      | none => .error ⟨.invalidEscape, byteLength cs - 4⟩
    | _ => .error ⟨.invalidEscape, byteLength cs - 4⟩

/-- The character of a `\u` escape whose digits follow: one escape, or the two
of a surrogate pair. -/
def unicodeEscape (cs : List Char) : Except Fault (Char × List Char) := do
  let (n, rest) ← hexEscape cs
  if 0xDC00 ≤ n ∧ n ≤ 0xDFFF then failBefore .loneSurrogate rest
  else if n < 0xD800 ∨ 0xDBFF < n then .ok (Char.ofNat n, rest)
  else
    match rest with
    | [] => failBefore .endInString []
    | '\\' :: [] => failBefore .endInString []
    | '\\' :: 'u' :: rest =>
      let (m, rest) ← hexEscape rest
      if m < 0xDC00 ∨ 0xDFFF < m then failBefore .loneSurrogate rest
      else .ok (Char.ofNat ((n - 0xD800) * 0x400 + (m - 0xDC00) + 0x10000), rest)
    | '\\' :: rest => failAt .endOfHexEscape rest
    | rest => failAt .endOfHexEscape rest

/-- The character of an escape whose backslash has been read. -/
def escapeSequence : List Char → Except Fault (Char × List Char)
  | [] => failBefore .endInString []
  | '"' :: rest => .ok ('"', rest)
  | '\\' :: rest => .ok ('\\', rest)
  | '/' :: rest => .ok ('/', rest)
  | 'b' :: rest => .ok ('\x08', rest)
  | 'f' :: rest => .ok ('\x0c', rest)
  | 'n' :: rest => .ok ('\n', rest)
  | 'r' :: rest => .ok ('\r', rest)
  | 't' :: rest => .ok ('\t', rest)
  | 'u' :: rest => unicodeEscape rest
  | c :: rest => failAt .invalidEscape (c :: rest)

/-- The characters of a string whose opening quote has been read. -/
def stringBody : Nat → List Char → Except Fault (List Char × List Char)
  | 0, cs => failBefore .endInString cs
  | _ + 1, [] => failBefore .endInString []
  | fuel + 1, c :: rest =>
    if c = '"' then .ok ([], rest)
    else if c = '\\' then do
      let (d, rest) ← escapeSequence rest
      let (ds, rest) ← stringBody fuel rest
      return (d :: ds, rest)
    else if c.toNat < 0x20 then failBefore .controlCharacter rest
    else do
      let (ds, rest) ← stringBody fuel rest
      return (c :: ds, rest)

/-- A string whose opening quote has been read. -/
def readString (cs : List Char) : Except Fault (String × List Char) := do
  let (ds, rest) ← stringBody (cs.length + 1) cs
  return (String.ofList ds, rest)

/-! ## §3. Numbers. -/

/-- The largest whole number of 64 bits. -/
def maxWord : Nat := Nat.pow 2 64 - 1

/-- A character is a decimal digit. -/
def isDigit (c : Char) : Bool := decide ('0' ≤ c) && decide (c ≤ '9')

/-- The value of a decimal digit. -/
def digitValue (c : Char) : Nat := c.toNat - 48

/-- Append digits to a significand while it fits into 64 bits: the significand
and the digits left over. -/
def significandOf (n : Nat) : List Char → Nat × List Char
  | [] => (n, [])
  | d :: ds =>
    if maxWord < n * 10 + digitValue d then (n, d :: ds)
    else significandOf (n * 10 + digitValue d) ds

/-- The rounded power of ten. -/
def powerOfTen (e : Nat) : Binary64 := (Binary64.nearest? (Nat.pow 10 e) 1).getD Binary64.zero

/-- Scale a magnitude by a power of ten, in steps that stay in range. -/
def scaleByTen : Nat → Binary64 → Int → Option Binary64
  | 0, x, _ => some x
  | fuel + 1, x, e =>
    if e.natAbs ≤ 308 then
      if 0 ≤ e then x.mul? (powerOfTen e.natAbs) else x.div? (powerOfTen e.natAbs)
    else if x.mantissa = 0 then some x
    else if 0 ≤ e then none
    else
      match x.div? (powerOfTen 308) with
      | some y => scaleByTen fuel y (e + 308)
      | none => none

/-- The double `significand · 10 ^ e`. -/
def doubleOf (negative : Bool) (significand : Nat) (e : Int) (rest : List Char) : Except Fault (Numeral × List Char) :=
  match (Binary64.nearest? significand 1).bind fun x => scaleByTen 8 x e with
  | some x => .ok (.double negative x, rest)
  | none => failBefore .numberOutOfRange rest

/-- Exponents beyond this are not counted any further. -/
def maxExponent : Nat := Nat.pow 2 31 - 1

/-- Read the digits of an exponent: `none` when it grows too large, with the
text after the digit that made it so. -/
def exponentDigits (n : Nat) : List Char → Option Nat × List Char
  | [] => (some n, [])
  | c :: cs =>
    if isDigit c then
      if maxExponent < n * 10 + digitValue c then (none, cs)
      else exponentDigits (n * 10 + digitValue c) cs
    else (some n, c :: cs)

/-- Read an exponent whose `e` has been read, for the number
`significand · 10 ^ start`. -/
def exponentPart (negative : Bool) (significand : Nat) (start : Int) (cs : List Char) :
    Except Fault (Numeral × List Char) :=
  let (up, cs) : Bool × List Char := match cs with
    | '+' :: rest => (true, rest)
    | '-' :: rest => (false, rest)
    | _ => (true, cs)
  match cs with
  | [] => failBefore .endInValue []
  | c :: rest =>
    if isDigit c then
      match exponentDigits (digitValue c) rest with
      | (some e, rest) => doubleOf negative significand (if up then start + e else start - e) rest
      | (none, rest) =>
        if significand ≠ 0 ∧ up then failBefore .numberOutOfRange rest
        else .ok (.double negative Binary64.zero, rest.dropWhile isDigit)
    else failAt .invalidNumber (c :: rest)

/-- Read what follows the digits of a fraction or a long whole number. -/
def afterDigits (negative : Bool) (significand : Nat) (start : Int) : List Char → Except Fault (Numeral × List Char)
  | 'e' :: rest => exponentPart negative significand start rest
  | 'E' :: rest => exponentPart negative significand start rest
  | rest => doubleOf negative significand start rest

/-- Read a fraction whose point has been read. -/
def fractionPart (negative : Bool) (significand : Nat) (start : Int) (cs : List Char) :
    Except Fault (Numeral × List Char) :=
  let digits := cs.takeWhile isDigit
  let rest := cs.dropWhile isDigit
  if digits.isEmpty then
    if rest.isEmpty then failBefore .endInValue [] else failAt .invalidNumber rest
  else
    let (significand, left) := significandOf significand digits
    afterDigits negative significand (start - ((digits.length : Int) - left.length)) rest

/-- The whole number that a significand stands for: `-0` and what is below
`-2 ^ 63` are doubles. -/
def wholeNumber (negative : Bool) (significand : Nat) (rest : List Char) : Except Fault (Numeral × List Char) :=
  if negative then
    if significand = 0 ∨ Nat.pow 2 63 < significand then doubleOf true significand 0 rest
    else .ok (.integer (-(significand : Int)), rest)
  else .ok (.integer significand, rest)

/-- Read a number whose sign has been read. -/
def readNumber (negative : Bool) : List Char → Except Fault (Numeral × List Char)
  | [] => failBefore .endInValue []
  | c :: rest =>
    if isDigit c then
      let digits := if c = '0' then [c] else c :: rest.takeWhile isDigit
      let rest := if c = '0' then rest else rest.dropWhile isDigit
      let (significand, left) := significandOf 0 digits
      match rest with
      | '.' :: rest => fractionPart negative significand left.length rest
      | 'e' :: rest => exponentPart negative significand left.length rest
      | 'E' :: rest => exponentPart negative significand left.length rest
      | rest =>
        if c = '0' ∧ (rest.head?.map isDigit).getD false then failAt .invalidNumber rest
        else if left.isEmpty then wholeNumber negative significand rest
        else doubleOf negative significand left.length rest
    else failAt .invalidNumber (c :: rest)

/-! ## §4. Values. -/

/-- Go past the colon of a member. -/
def colon (cs : List Char) : Except Fault (List Char) :=
  match skipSpace cs with
  | [] => failBefore .endInObject []
  | ':' :: rest => .ok rest
  | rest => failAt .expectedColon rest

/-- Go to the next item of a list, `first` telling whether none has been read:
`none` at its end, which is left to be read. -/
def nextItem (first : Bool) (cs : List Char) : Except Fault (Bool × List Char) :=
  match skipSpace cs with
  | [] => failBefore .endInList []
  | ']' :: rest => .ok (false, ']' :: rest)
  | c :: rest =>
    if first then .ok (true, c :: rest)
    else if c = ',' then
      match skipSpace rest with
      | [] => failBefore .endInValue []
      | ']' :: rest => failAt .trailingComma (']' :: rest)
      | rest => .ok (true, rest)
    else failAt .expectedCommaOrBracket (c :: rest)

/-- Go past the quote that opens the name of the next member; `false` at the
end of the object, which is left to be read. -/
def nextMember (first : Bool) (cs : List Char) : Except Fault (Bool × List Char) :=
  match skipSpace cs with
  | [] => failBefore .endInObject []
  | '}' :: rest => .ok (false, '}' :: rest)
  | c :: rest =>
    if first then
      if c = '"' then .ok (true, rest) else failAt .keyNotString (c :: rest)
    else if c = ',' then
      match skipSpace rest with
      | [] => failBefore .endInValue []
      | '"' :: rest => .ok (true, rest)
      | '}' :: rest => failAt .trailingComma ('}' :: rest)
      | rest => failAt .keyNotString rest
    else failAt .expectedCommaOrBrace (c :: rest)

mutual

/-- Read a value; `depth` is one more than the number of brackets that may still open. -/
def readValue : Nat → Nat → List Char → Except Fault (Json × List Char)
  | 0, _, cs => failBefore .endInValue cs
  | fuel + 1, depth, cs =>
    match skipSpace cs with
    | [] => failBefore .endInValue []
    | c :: rest =>
      if c = 'n' then do
        let rest ← literal ['u', 'l', 'l'] rest
        return (.null, rest)
      else if c = 't' then do
        let rest ← literal ['r', 'u', 'e'] rest
        return (.bool true, rest)
      else if c = 'f' then do
        let rest ← literal ['a', 'l', 's', 'e'] rest
        return (.bool false, rest)
      else if c = '-' then do
        let (n, rest) ← readNumber true rest
        return (.number n, rest)
      else if isDigit c then do
        let (n, rest) ← readNumber false (c :: rest)
        return (.number n, rest)
      else if c = '"' then do
        let (s, rest) ← readString rest
        return (.string s, rest)
      else if c = '[' then
        if depth ≤ 1 then failAt .recursionLimit (c :: rest)
        else do
          let (items, rest) ← readItems fuel (depth - 1) true rest
          return (.array items, rest)
      else if c = '{' then
        if depth ≤ 1 then failAt .recursionLimit (c :: rest)
        else do
          let (members, rest) ← readMembers fuel (depth - 1) true [] rest
          return (.object members, rest)
      else failAt .expectedValue (c :: rest)

/-- Read the items of a list up to and with its closing bracket. -/
def readItems : Nat → Nat → Bool → List Char → Except Fault (List Json × List Char)
  | 0, _, _, cs => failBefore .endInList cs
  | fuel + 1, depth, first, cs => do
    let (more, rest) ← nextItem first cs
    if more then
      let (x, rest) ← readValue fuel depth rest
      let (xs, rest) ← readItems fuel depth false rest
      return (x :: xs, rest)
    else return ([], rest.drop 1)

/-- Read the members of an object up to and with its closing bracket, and set
them one after the other. -/
def readMembers : Nat → Nat → Bool → Members → List Char → Except Fault (Members × List Char)
  | 0, _, _, _, cs => failBefore .endInObject cs
  | fuel + 1, depth, first, members, cs => do
    let (more, rest) ← nextMember first cs
    if more then
      let (name, rest) ← readString rest
      let rest ← colon rest
      let (x, rest) ← readValue fuel depth rest
      readMembers fuel depth false (members.set name x) rest
    else return (members, rest.drop 1)

end

/-- Run a reader on a whole text: nothing but blanks may follow the value. -/
def readWhole {α : Type} (reader : List Char → Except Fault (α × List Char)) (text : String) : Except Failure α :=
  let cs := text.toList
  let outcome : Except Fault α := do
    let (x, rest) ← reader cs
    match skipSpace rest with
    | [] => return x
    | rest => failAt .trailingCharacters rest
  match outcome with
  | .ok x => .ok x
  | .error fault => .error (Failure.ofFault cs fault)

/-- The value that a text is. -/
def parse (text : String) : Except Failure Json :=
  readWhole (fun cs => readValue (2 * cs.length + 2) 128 cs) text

end AmdKit.Json
