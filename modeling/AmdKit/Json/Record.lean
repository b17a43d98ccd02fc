/-
  AmdKit.Json.Record
  ────────────────────────────────
  **READING SETTINGS.**

  Settings are read straight from their text, without a value in between, so
  the first thing that is wrong in reading order is what a failure reports.  A
  record of two fields may be written as an object or as a list of the fields
  in order.  Either field may be absent, a name that the record does not know
  is skipped with its value, and a field given twice is refused.
-/
import AmdKit.Json.Reader

namespace AmdKit.Json

open Text (byteLength)

/-! ## §1. Values of one type. -/

/-- Fail on a value of another type than the expected one: a scalar is read
first, a list or an object is refused at its bracket. -/
def refuse {α : Type} (expected : String) (cs : List Char) : Except Fault α :=
  match cs with
  | [] => failBefore .endInValue []
  | c :: rest =>
    if c = 'n' then do
      let rest ← literal ['u', 'l', 'l'] rest
      failBefore (.wrongType .null expected) rest
    else if c = 't' then do
      let rest ← literal ['r', 'u', 'e'] rest
      failBefore (.wrongType (.bool true) expected) rest
    else if c = 'f' then do
      let rest ← literal ['a', 'l', 's', 'e'] rest
      failBefore (.wrongType (.bool false) expected) rest
    else if c = '-' then do
      let (n, rest) ← readNumber true rest
      failBefore (.wrongType (.number n) expected) rest
    else if isDigit c then do
      let (n, rest) ← readNumber false (c :: rest)
      failBefore (.wrongType (.number n) expected) rest
    else if c = '"' then do
      let (s, rest) ← readString rest
      failBefore (.wrongType (.string s) expected) rest
    else if c = '[' then failBefore (.wrongType .sequence expected) (c :: rest)
    else if c = '{' then failBefore (.wrongType .map expected) (c :: rest)
    else failAt .expectedValue (c :: rest)

/-- Read `true` or `false`. -/
def readBool (cs : List Char) : Except Fault (Bool × List Char) :=
  match skipSpace cs with
  | 't' :: rest => do
    let rest ← literal ['r', 'u', 'e'] rest
    return (true, rest)
  | 'f' :: rest => do
    let rest ← literal ['a', 'l', 's', 'e'] rest
    return (false, rest)
  | rest => refuse "a boolean" rest

/-- Read a string. -/
def readText (cs : List Char) : Except Fault (String × List Char) :=
  match skipSpace cs with
  | '"' :: rest => readString rest
  | rest => refuse "a string" rest

/-- Read the members of an object of strings, up to its closing bracket. -/
def readTextMembers : Nat → Bool → List (String × String) → List Char →
    Except Fault (List (String × String) × List Char)
  | 0, _, _, cs => failBefore .endInObject cs
  | fuel + 1, first, table, cs => do
    let (more, rest) ← nextMember first cs
    if more then
      let (name, rest) ← readString rest
      let rest ← colon rest
      let (value, rest) ← readText rest
      readTextMembers fuel false (Keyed.put Prod.fst (name, value) table) rest
    else return (table, rest.drop 1)

/-- Read an object of strings; a repeated name takes its last value. -/
def readTable (cs : List Char) : Except Fault (List (String × String) × List Char) :=
  match skipSpace cs with
  | '{' :: rest => readTextMembers (rest.length + 1) true [] rest
  | rest => refuse "a map" rest

/-! ## §2. Values that are not wanted. -/

/-- Go past the digits of a skipped number's exponent, whose `e` has been read. -/
def skipExponent (cs : List Char) : Except Fault (List Char) :=
  let cs := match cs with
    | '+' :: rest => rest
    | '-' :: rest => rest
    | _ => cs
  match cs with
  | c :: rest => if isDigit c then .ok (rest.dropWhile isDigit) else failAt .invalidNumber (c :: rest)
  | [] => failBefore .invalidNumber []

/-- Go past a number whose sign has been read; its size does not matter. -/
def skipNumber (cs : List Char) : Except Fault (List Char) :=
  match cs with
  | [] => failBefore .invalidNumber []
  | c :: rest =>
    if isDigit c then
      let after := if c = '0' then rest else rest.dropWhile isDigit
      match after with
      | '.' :: rest =>
        let afterFraction := rest.dropWhile isDigit
        if (rest.takeWhile isDigit).isEmpty then failAt .invalidNumber rest
        else
          match afterFraction with
          | 'e' :: rest => skipExponent rest
          | 'E' :: rest => skipExponent rest
          | rest => .ok rest
      | 'e' :: rest => skipExponent rest
      | 'E' :: rest => skipExponent rest
      | d :: rest => if c = '0' ∧ isDigit d then failAt .invalidNumber (d :: rest) else .ok (d :: rest)
      | [] => .ok []
    else failAt .invalidNumber (c :: rest)

/-- Go past a string whose opening quote has been read; half a surrogate pair
does not matter. -/
def skipString : Nat → List Char → Except Fault (List Char)
  | 0, cs => failBefore .endInString cs
  | _ + 1, [] => failBefore .endInString []
  | fuel + 1, c :: rest =>
    if c = '"' then .ok rest
    else if c = '\\' then
      match rest with
      | [] => failBefore .endInString []
      | 'u' :: rest => do
        let (_, rest) ← hexEscape rest
        skipString fuel rest
      | e :: rest =>
        if e ∈ ['"', '\\', '/', 'b', 'f', 'n', 'r', 't'] then skipString fuel rest
        else failAt .invalidEscape (e :: rest)
    else if c.toNat < 0x20 then failBefore .controlCharacter (c :: rest)
    else skipString fuel rest

/-- A bracket that stands open while a value is skipped. -/
inductive Bracket where
  /-- The bracket of a list. -/
  | list
  /-- The bracket of an object. -/
  | object
  deriving Repr, DecidableEq

/-- Go past the name of a member and its colon. -/
def skipName (cs : List Char) : Except Fault (List Char) :=
  match skipSpace cs with
  | [] => failBefore .endInObject []
  | '"' :: rest => do
    let rest ← skipString (rest.length + 1) rest
    colon rest
  | rest => failAt .keyNotString rest

mutual

/-- Go past a value, and past everything up to the innermost closing bracket of
those that stand open. -/
def skipValue : Nat → List Bracket → List Char → Except Fault (List Char)
  | 0, _, cs => failBefore .endInValue cs
  | fuel + 1, opened, cs =>
    match skipSpace cs with
    | [] => failBefore .endInValue []
    | c :: rest =>
      if c = 'n' then do
        let rest ← literal ['u', 'l', 'l'] rest
        skipRest fuel true opened rest
      else if c = 't' then do
        let rest ← literal ['r', 'u', 'e'] rest
        skipRest fuel true opened rest
      else if c = 'f' then do
        let rest ← literal ['a', 'l', 's', 'e'] rest
        skipRest fuel true opened rest
      else if c = '-' then do
        let rest ← skipNumber rest
        skipRest fuel true opened rest
      else if isDigit c then do
        let rest ← skipNumber (c :: rest)
        skipRest fuel true opened rest
      else if c = '"' then do
        let rest ← skipString (rest.length + 1) rest
        skipRest fuel true opened rest
      else if c = '[' then skipRest fuel false (.list :: opened) rest
      else if c = '{' then skipRest fuel false (.object :: opened) rest
      else failAt .expectedValue (c :: rest)

/-- Go on after a value (`afterValue`) or an opening bracket. -/
def skipRest : Nat → Bool → List Bracket → List Char → Except Fault (List Char)
  | 0, _, _, cs => failBefore .endInValue cs
  | _ + 1, _, [], cs => .ok cs
  | fuel + 1, afterValue, bracket :: opened, cs =>
    match skipSpace cs with
    | [] => failBefore (if bracket = .list then .endInList else .endInObject) []
    | c :: rest =>
      if afterValue ∧ c = ',' then do
        let rest ← if bracket = .object then skipName rest else .ok rest
        skipValue fuel (bracket :: opened) rest
      else if (bracket = .list ∧ c = ']') ∨ (bracket = .object ∧ c = '}') then
        skipRest fuel true opened rest
      else if afterValue then
        failAt (if bracket = .list then .expectedCommaOrBracket else .expectedCommaOrBrace) (c :: rest)
      else do
        let rest ← if bracket = .object then skipName (c :: rest) else .ok (c :: rest)
        skipValue fuel (bracket :: opened) rest

end

/-! ## §3. Records. -/

/-- A field of a record: its name, and how its value is read. -/
structure Field (α : Type) where
  /-- The name of the member. -/
  name : String
  /-- Reads the value. -/
  read : List Char → Except Fault (α × List Char)

/-- The end of an object in which a field was given twice: blanks and a closing
bracket are still read before the failure is placed. -/
def failTwice {α : Type} (name : String) (cs : List Char) : Except Fault α :=
  match skipSpace cs with
  | '}' :: rest => failBefore (.duplicateField name) rest
  | rest => failBefore (.duplicateField name) rest

/-- Read the members of a record of two fields, up to its closing bracket. -/
def readFields {α β : Type} (a : Field α) (b : Field β) :
    Nat → Bool → Option α → Option β → List Char → Except Fault ((Option α × Option β) × List Char)
  | 0, _, _, _, cs => failBefore .endInObject cs
  | fuel + 1, first, x, y, cs => do
    let (more, rest) ← nextMember first cs
    if more then
      let (name, rest) ← readString rest
      if name = a.name then
        if x.isSome then failTwice name rest
        else
          let rest ← colon rest
          let (x, rest) ← a.read rest
          readFields a b fuel false (some x) y rest
      else if name = b.name then
        if y.isSome then failTwice name rest
        else
          let rest ← colon rest
          let (y, rest) ← b.read rest
          readFields a b fuel false x (some y) rest
      else
        let rest ← colon rest
        let rest ← skipValue (2 * rest.length + 2) [] rest
        readFields a b fuel false x y rest
    else return ((x, y), rest.drop 1)

/-- Go past the end of the list of a record's fields. -/
def endOfFields (cs : List Char) : Except Fault (List Char) :=
  match skipSpace cs with
  | [] => failBefore .endInList []
  | ']' :: rest => .ok rest
  | ',' :: rest =>
    match skipSpace rest with
    | ']' :: rest => failAt .trailingComma (']' :: rest)
    | rest => failAt .trailingCharacters rest
  | rest => failAt .trailingCharacters rest

/-- Read a record of two fields. -/
def readRecord {α β : Type} (typeName : String) (a : Field α) (b : Field β) (cs : List Char) :
    Except Fault ((Option α × Option β) × List Char) :=
  match skipSpace cs with
  | '{' :: rest => readFields a b (rest.length + 1) true none none rest
  | '[' :: rest => do
    let (more, rest) ← nextItem true rest
    if more then
      let (x, rest) ← a.read rest
      let (more, rest) ← nextItem false rest
      if more then
        let (y, rest) ← b.read rest
        let rest ← endOfFields rest
        return ((some x, some y), rest)
      else
        let rest ← endOfFields rest
        return ((some x, none), rest)
    else
      let rest ← endOfFields rest
      return ((none, none), rest)
  | rest => refuse ("struct " ++ typeName) rest

end AmdKit.Json
