/-
  AmdKit.Script.Lexer
  ────────────────────────────────
  **READING TOKENS.**

  `lex` reads the next token of a script, after the blanks and comments before
  it.  A regular expression and the text of a template are read on request
  only, because a slash and a brace alone do not tell them apart from other
  tokens.  Something that is no token becomes a token of its own that carries
  the fault, and reading can go on after it.
-/
import AmdKit.Script.Token
import AmdKit.Text.Classes
import AmdKit.Text.Identifier

namespace AmdKit.Script

open Text (Span isIdentifierStart isIdentifierPart)

/-! ## §1. Input. -/

/-- What is left of a script, and the offsets between which it stands. -/
structure Input where
  /-- The characters that are left. -/
  chars : List Char
  /-- The byte offset of the first of them. -/
  offset : Nat
  /-- The byte offset of the end of the script. -/
  stop : Nat
  deriving Repr, DecidableEq

/-- More than the number of characters that are left. -/
def Input.fuel (i : Input) : Nat := i.stop - i.offset + 2

/-- The input after its first character. -/
def Input.next (i : Input) : Input :=
  match i.chars with
  | [] => i
  | c :: cs => { i with chars := cs, offset := i.offset + c.utf8Size }

/-- The input after its first `n` characters. -/
def Input.skip : Nat → Input → Input
  | 0, i => i
  | n + 1, i => Input.skip n i.next

/-- The characters in front that satisfy a condition, and the input after them. -/
def Input.spanWhile (p : Char → Bool) (i : Input) : List Char × Input :=
  let front := i.chars.takeWhile p
  (front, i.skip front.length)

/-- The input begins with the characters. -/
def Input.startsWith (i : Input) (front : List Char) : Bool :=
  front.isPrefixOf i.chars

/-- The character ends a line. -/
def isLineEnd (c : Char) : Bool :=
  c == '\n' || c == '\r' || c == '\u2028' || c == '\u2029'

/-- The character is a blank between tokens. -/
def isGap (c : Char) : Bool := Text.isBlank c || c == '\ufeff'

/-- The character is a decimal digit. -/
def isDigit (c : Char) : Bool := decide ('0' ≤ c) && decide (c ≤ '9')

/-! ## §2. Blanks and comments. -/

/-- Where a reader of blanks and comments is. -/
inductive Gap where
  /-- Between tokens. -/
  | blank
  /-- In a comment that ends with its line. -/
  | lineComment
  /-- In a comment with an end of its own. -/
  | blockComment
  deriving Repr, DecidableEq

/-- What stands before a token. -/
structure Trivia where
  /-- The characters from the token on. -/
  chars : List Char
  /-- The byte offset of the first of them. -/
  offset : Nat
  /-- A line ended on the way. -/
  lineBreak : Bool
  /-- A comment does not end. -/
  unterminated : Bool
  deriving Repr, DecidableEq

/-- Go past blanks and comments. -/
def skipGap : Gap → Bool → List Char → Nat → Trivia
  | .blank, nl, '/' :: '/' :: cs, n => skipGap .lineComment nl cs (n + 2)
  | .blank, nl, '/' :: '*' :: cs, n => skipGap .blockComment nl cs (n + 2)
  | .blank, nl, c :: cs, n =>
    if isLineEnd c then skipGap .blank true cs (n + c.utf8Size)
    else if isGap c then skipGap .blank nl cs (n + c.utf8Size)
    else ⟨c :: cs, n, nl, false⟩
  | .lineComment, nl, c :: cs, n =>
    if isLineEnd c then skipGap .blank true cs (n + c.utf8Size)
    else skipGap .lineComment nl cs (n + c.utf8Size)
  | .blockComment, nl, '*' :: '/' :: cs, n => skipGap .blank nl cs (n + 2)
  | .blockComment, nl, c :: cs, n => skipGap .blockComment (nl || isLineEnd c) cs (n + c.utf8Size)
  | .blockComment, nl, [], n => ⟨[], n, nl, true⟩
  | _, nl, [], n => ⟨[], n, nl, false⟩

/-! ## §3. Escapes. -/

/-- The value of a hexadecimal digit. -/
def hexDigit? (c : Char) : Option Nat :=
  if '0' ≤ c ∧ c ≤ '9' then some (c.toNat - 48)
  else if 'a' ≤ c ∧ c ≤ 'f' then some (c.toNat - 87)
  else if 'A' ≤ c ∧ c ≤ 'F' then some (c.toNat - 55)
  else none

/-- The character is a hexadecimal digit. -/
def isHexDigit (c : Char) : Bool := (hexDigit? c).isSome

/-- The number that digits of a radix write. -/
def numberOf (radix : Nat) (ds : List Char) : Nat :=
  ds.foldl (fun n c => n * radix + (hexDigit? c).getD 0) 0

/-- Something read off the input, or a fault, and the input after it. -/
abbrev Scan (α : Type) := Except Fault α × Input

/-- The code point of an escape whose backslash and `u` have been read; its
faults are reported at `start`. -/
def unicodeEscape (start : Nat) (i : Input) : Scan Nat :=
  if i.startsWith ['{'] then
    let (ds, after) := i.next.spanWhile isHexDigit
    let value := numberOf 16 ds
    if ds.isEmpty then (.error ⟨.badEscape "1-6 hex characters", start⟩, after)
    else if 0x10FFFF < value then
      (.error ⟨.badEscape "1-6 hex characters in the range 0 to 10FFFF.", start⟩, after)
    else if after.startsWith ['}'] then (.ok value, after.next)
    else (.error ⟨.invalidUnicodeEscape, start⟩, after)
  else
    let ds := (i.chars.take 4).takeWhile isHexDigit
    let after := i.skip ds.length
    if ds.length = 4 then (.ok (numberOf 16 ds), after)
    else (.error ⟨.badEscape "4 hex characters", start⟩, after)

/-- Read an escape inside a string or template whose backslash, at `start`, has
been read: the issues that it has in strict code. -/
def stringEscape (inTemplate : Bool) (start : Nat) (i : Input) :
    Scan (List (Severity × Fault)) :=
  match i.chars with
  | [] => (.ok [], i)
  | 'x' :: _ =>
    let ds := (i.next.chars.take 2).takeWhile isHexDigit
    let after := i.next.skip ds.length
    if ds.length = 2 then (.ok [], after) else (.error ⟨.badEscape "2 hex characters", start⟩, after)
  | 'u' :: _ =>
    let (result, after) := unicodeEscape start i.next
    (result.map fun _ => [], after)
  | '\r' :: '\n' :: _ => (.ok [], i.skip 2)
  | c :: d =>
    if '0' ≤ c ∧ c ≤ '7' ∧ ¬(c = '0' ∧ !(d.head?.any fun e => '0' ≤ e && e ≤ '7')) then
      if inTemplate then (.error ⟨.legacyOctal, start⟩, i.next)
      else (.ok [(.strict, ⟨.legacyOctal, start⟩)], i.next)
    else (.ok [], i.next)

/-! ## §4. Identifiers. -/

/-- The characters of an identifier. -/
structure Spelling where
  /-- The characters, escapes decoded. -/
  chars : List Char
  /-- At least one of them is written as an escape. -/
  escaped : Bool
  /-- Issues of the escapes. -/
  issues : List (Severity × Fault)

/-- Read the characters of an identifier. -/
def identifierChars (start : Nat) : Nat → Bool → Input → Scan Spelling
  | 0, _, i => (.ok ⟨[], false, []⟩, i)
  | fuel + 1, first, i =>
    match i.chars with
    | [] => (.ok ⟨[], false, []⟩, i)
    | c :: _ =>
      if (if first then isIdentifierStart c else isIdentifierPart c) then
        let (result, after) := identifierChars start fuel false i.next
        (result.map fun s => { s with chars := c :: s.chars }, after)
      else if c = '\\' then
        if i.next.startsWith ['u'] then
          match unicodeEscape i.offset (i.skip 2) with
          | (.error fault, after) => (.error fault, after)
          | (.ok value, after) =>
            let d := Char.ofNat value
            let valid := if first then isIdentifierStart d else isIdentifierPart d
            let issues := if valid then [] else [(.always, ⟨.invalidIdentifierCharacter, start⟩)]
            let (result, after) := identifierChars start fuel false after
            (result.map fun s => ⟨d :: s.chars, true, issues ++ s.issues⟩, after)
        else (.error ⟨.unicodeEscapeExpected, i.offset⟩, i.next)
      else (.ok ⟨[], false, []⟩, i)

/-- A token, its issues, and the input after it. -/
structure Reading where
  /-- The token. -/
  token : Token
  /-- The input after it. -/
  after : Input
  /-- Issues that do not keep it from being read. -/
  issues : List (Severity × Fault) := []

/-- The token that a spelling is. -/
def Spelling.token (start : Nat) (s : Spelling) : Token :=
  let text := String.ofList s.chars
  match Word.ofText? text with
  | none => .name text
  | some w =>
    if !s.escaped then .word w
    else if w.isReserved then .bad ⟨.escapedReservedWord text, start⟩
    else .name text

/-- Read an identifier or a word. -/
def readWord (i : Input) : Reading :=
  match identifierChars i.offset i.fuel true i with
  | (.ok s, after) => ⟨s.token i.offset, after, s.issues⟩
  | (.error fault, after) => ⟨.bad fault, after, []⟩

/-! ## §5. Numbers. -/

/-- The character is a digit of a radix. -/
def isDigitOf (radix : Nat) (c : Char) : Bool := (hexDigit? c).any fun d => decide (d < radix)

/-- Underscores that are not between two digits; `before` tells whether a digit
has just been read. -/
def misplaced (radix : Nat) : Bool → List Char → Bool
  | _, [] => false
  | before, '_' :: cs => !before || !(cs.head?.any (isDigitOf radix)) || misplaced radix false cs
  | _, _ :: cs => misplaced radix true cs

/-- Read digits and the underscores among them. -/
def readDigits (radix : Nat) (i : Input) : List Char × Input × List (Severity × Fault) :=
  let (front, after) := i.spanWhile fun c => isDigitOf radix c || c == '_'
  let issues : List (Severity × Fault) :=
    if misplaced radix false front then [(.always, ⟨.misplacedSeparator, i.offset⟩)] else []
  (front, after, issues)

/-- The characters in front that take up a number of bytes. -/
def takeBytes : List Char → Nat → List Char
  | c :: cs, n + 1 => c :: takeBytes cs (n + 1 - c.utf8Size)
  | _, _ => []

/-- The text from `start` up to `after`. -/
def textBetween (start after : Input) : String :=
  String.ofList (takeBytes start.chars (after.offset - start.offset))

/-- A number that has been read from `start` up to `after`, unless a letter
follows it directly. -/
def finishNumber (start after : Input) (issues : List (Severity × Fault)) : Reading :=
  if after.startsWith ['\\'] ∨ (after.chars.head?.any isIdentifierStart) then
    ⟨.bad ⟨.identifierAfterNumber, after.offset⟩, after, issues⟩
  else ⟨.number (textBetween start after), after, issues⟩

/-- A big integer that has been read from `start` up to its last letter. -/
def finishBigint (start after : Input) (issues : List (Severity × Fault)) : Reading :=
  ⟨.bigint (textBetween start after.next), after.next, issues⟩

/-- Read the exponent of a number, if it has one. -/
def readExponent (start : Input) (issues : List (Severity × Fault)) (i : Input) : Reading :=
  if i.startsWith ['e'] ∨ i.startsWith ['E'] then
    let after := i.next
    let after := if after.startsWith ['+'] ∨ after.startsWith ['-'] then after.next else after
    let (digits, rest, more) := readDigits 10 after
    if digits.isEmpty then ⟨.bad ⟨.digitExpected 10, after.offset⟩, after, issues⟩
    else finishNumber start rest (issues ++ more)
  else finishNumber start i issues

/-- Read what follows the whole part of a decimal number. -/
def readFraction (start : Input) (issues : List (Severity × Fault)) (i : Input) : Reading :=
  if i.startsWith ['.'] then
    let (_, rest, more) := readDigits 10 i.next
    readExponent start (issues ++ more) rest
  else readExponent start issues i

/-- Read a number of another radix, after its mark. -/
def readRadix (radix : Nat) (start : Input) : Reading :=
  let (digits, after, issues) := readDigits radix (start.skip 2)
  if digits.isEmpty then ⟨.bad ⟨.digitExpected radix, start.offset + 2⟩, after, issues⟩
  else if after.startsWith ['n'] then finishBigint start after issues
  else finishNumber start after issues

/-- Read a number that begins with a digit. -/
def readNumber (start : Input) : Reading :=
  match start.chars with
  | '0' :: 'x' :: _ | '0' :: 'X' :: _ => readRadix 16 start
  | '0' :: 'o' :: _ | '0' :: 'O' :: _ => readRadix 8 start
  | '0' :: 'b' :: _ | '0' :: 'B' :: _ => readRadix 2 start
  | _ =>
    let (digits, after, issues) := readDigits 10 start
    let leadingZero := start.startsWith ['0'] && 1 < digits.length
    if !leadingZero && after.startsWith ['n'] then finishBigint start after issues
    else if !leadingZero then readFraction start issues after
    else if digits.all (isDigitOf 8) then
      finishNumber start after (issues ++ [(.strict, ⟨.legacyOctal, start.offset⟩)])
    else readFraction start (issues ++ [(.strict, ⟨.legacyDecimal, start.offset⟩)]) after

/-! ## §6. Strings, regular expressions and templates. -/

/-- Read a string whose opening quote has been read. -/
def stringChars (start : Input) (quote : Char) : Nat → Input → Reading
  | 0, i => ⟨.finish, i, []⟩
  | fuel + 1, i =>
    match i.chars with
    | [] => ⟨.string (textBetween start i), i, [(.always, ⟨.unterminatedString, start.offset⟩)]⟩
    | c :: _ =>
      if c = quote then
        ⟨.string (textBetween start i.next), i.next, []⟩
      else if c = '\\' then
        match stringEscape false i.offset i.next with
        | (.error fault, after) => ⟨.bad fault, after, []⟩
        | (.ok issues, after) =>
          let rest := stringChars start quote fuel after
          { rest with issues := issues ++ rest.issues }
      else if c = '\n' ∨ c = '\r' then
        ⟨.string (textBetween start i), i, [(.always, ⟨.unterminatedString, start.offset⟩)]⟩
      else stringChars start quote fuel i.next

/-- Read the text of a regular expression up to and with its closing slash;
`none` when it has none. -/
def regexChars : (escaped inClass : Bool) → List Char → Option Nat
  | _, _, [] => none
  | escaped, inClass, c :: cs =>
    if isLineEnd c then none
    else if escaped then (regexChars false inClass cs).map (· + 1)
    else if c = '/' && !inClass then some 1
    else
      (regexChars (c == '\\') (if c = '[' then true else if c = ']' then false else inClass) cs).map
        (· + 1)

/-- The flags that a regular expression may have. -/
def regexFlags : List Char := ['d', 'g', 'i', 'm', 's', 'u', 'v', 'y']

/-- The issues of the flags of a regular expression at `start`. -/
def flagIssues (start : Nat) (flags : List Char) : List Fault :=
  ((regexFlags.filter fun f => 1 < flags.count f).map fun f => ⟨.duplicateFlag f, start⟩)
    ++ (if flags.all fun f => f ∈ regexFlags then [] else [⟨.unknownFlag, start⟩])

/-- Read a regular expression at its opening slash: the issues of its flags. -/
def readRegex (i : Input) : Scan (List Fault) :=
  match regexChars false false (i.chars.drop 1) with
  | none => (.error ⟨.unterminatedRegex, i.offset⟩, i)
  | some n =>
    let (flags, after) := (i.skip (n + 1)).spanWhile isIdentifierPart
    (.ok (flagIssues i.offset flags), after)

/-- How a piece of template text ends. -/
inductive PieceEnd where
  /-- The template ends, at the input given. -/
  | backquote
  /-- A placeholder begins, at the input given. -/
  | placeholder
  /-- The script ends. -/
  | finish
  deriving Repr, DecidableEq

/-- Read a piece of template text: how it ends, the first fault of its escapes,
and the input at its end. -/
def templatePiece : Nat → Option Fault → Input → PieceEnd × Option Fault × Input
  | 0, fault, i => (.finish, fault, i)
  | fuel + 1, fault, i =>
    match i.chars with
    | [] => (.finish, fault, i)
    | '\x60' :: _ => (.backquote, fault, i)
    | '$' :: '{' :: _ => (.placeholder, fault, i)
    | '\\' :: _ =>
      match stringEscape true i.offset i.next with
      | (.error f, after) => templatePiece fuel (fault.or (some f)) after
      | (.ok _, after) => templatePiece fuel fault after
    | _ => templatePiece fuel fault i.next

/-! ## §7. Marks. -/

/-- The marks by their spelling, a longer one before those that begin it. -/
def marks : List (List Char × Mark) := [
  (['>', '>', '>', '='], .compound .shiftZero),
  (['.', '.', '.'], .ellipsis), (['=', '=', '='], .operator .same),
  (['!', '=', '='], .operator .notSame), (['>', '>', '>'], .operator .shiftZero),
  (['>', '>', '='], .compound .shiftRight), (['<', '<', '='], .compound .shiftLeft),
  (['*', '*', '='], .compound .power), (['&', '&', '='], .compound .and),
  (['|', '|', '='], .compound .or), (['?', '?', '='], .compound .nullish),
  (['=', '='], .operator .equal), (['!', '='], .operator .notEqual), (['=', '>'], .arrow),
  (['<', '='], .operator .lessEqual), (['>', '='], .operator .greaterEqual),
  (['<', '<'], .operator .shiftLeft), (['>', '>'], .operator .shiftRight),
  (['+', '+'], .increment), (['-', '-'], .decrement), (['+', '='], .compound .plus),
  (['-', '='], .compound .minus), (['*', '*'], .operator .power), (['*', '='], .compound .times),
  (['/', '='], .compound .divide), (['%', '='], .compound .remainder),
  (['&', '&'], .operator .and), (['|', '|'], .operator .or), (['?', '?'], .operator .nullish),
  (['&', '='], .compound .bitAnd), (['|', '='], .compound .bitOr), (['^', '='], .compound .bitXor),
  (['?', '.'], .optionalDot),
  (['('], .leftParen), ([')'], .rightParen), (['{'], .leftBrace), (['}'], .rightBrace),
  (['['], .leftBracket), ([']'], .rightBracket), ([';'], .semicolon), ([','], .comma),
  ([':'], .colon), (['.'], .dot), (['?'], .question), (['\x60'], .backquote), (['#'], .hash),
  (['@'], .commercialAt), (['!'], .bang), (['~'], .tilde), (['='], .assign),
  (['<'], .operator .less), (['>'], .operator .greater), (['+'], .operator .plus),
  (['-'], .operator .minus), (['*'], .operator .times), (['/'], .operator .divide),
  (['%'], .operator .remainder), (['&'], .operator .bitAnd), (['|'], .operator .bitOr),
  (['^'], .operator .bitXor)]

/-- Read a mark.  A question mark, a point and a digit are no optional access. -/
def readMark (i : Input) : Reading :=
  match i.chars with
  | [] => ⟨.finish, i, []⟩
  | c :: cs =>
    if c = '?' ∧ cs.head? = some '.' ∧ (cs.drop 1).head?.any isDigit then ⟨.mark .question, i.next, []⟩
    else
      match marks.find? fun m => m.1.isPrefixOf i.chars with
      | some m => ⟨.mark m.2, i.skip m.1.length, []⟩
      | none => ⟨.bad ⟨.unexpectedCharacter c, i.offset⟩, i.next, []⟩

/-! ## §8. Tokens. -/

/-- Read the token at the input. -/
def readToken (i : Input) : Reading :=
  match i.chars with
  | [] => ⟨.finish, i, []⟩
  | c :: cs =>
    if isIdentifierStart c ∨ c = '\\' then readWord i
    else if isDigit c then readNumber i
    else if c = '.' ∧ cs.head?.any isDigit then readFraction i [] i
    else if c = '"' ∨ c = '\'' then stringChars i c i.fuel i.next
    else readMark i

/-- A token, the input at which it begins, and the input after it. -/
structure Lexed where
  /-- The token in its place. -/
  lexeme : Lexeme
  /-- The input at its first character. -/
  start : Input
  /-- The input after its last character. -/
  after : Input
  deriving Repr, DecidableEq

/-- The input after the end of the line. -/
def Input.skipLine (i : Input) : Input :=
  (i.spanWhile fun c => !isLineEnd c).2

/-- Read the next token.  `lineBreak` tells whether a line has ended since the
token before.  A comment of the markup kind lets the token after it begin at
the comment, which `start` remembers. -/
def lexFrom : Nat → Option Input → Bool → List (Severity × Fault) → Input → Lexed
  | 0, start, lineBreak, issues, i =>
    let first := start.getD i
    ⟨⟨.finish, ⟨first.offset, i.offset⟩, lineBreak, issues⟩, first, i⟩
  | fuel + 1, start, lineBreak, issues, i =>
    let gap := skipGap .blank lineBreak i.chars i.offset
    let i := { i with chars := gap.chars, offset := gap.offset }
    let first := start.getD i
    let legacy : Severity × Fault := (.inModule, ⟨.legacyComment, first.offset⟩)
    if gap.unterminated then
      ⟨⟨.finish, ⟨first.offset, i.offset⟩, gap.lineBreak,
        issues ++ [(.always, ⟨.unterminatedComment, i.offset⟩)]⟩, first, i⟩
    else if i.startsWith ['<', '!', '-', '-'] then
      lexFrom fuel (some first) gap.lineBreak (issues ++ [legacy]) i.skipLine
    else if gap.lineBreak ∧ i.startsWith ['-', '-', '>'] then
      lexFrom fuel (some first) gap.lineBreak (issues ++ [legacy]) i.skipLine
    else
      let reading := readToken i
      ⟨⟨reading.token, ⟨first.offset, reading.after.offset⟩, gap.lineBreak,
        issues ++ reading.issues⟩, first, reading.after⟩

/-- The next token of the input. -/
def lex (lineBreak : Bool) (i : Input) : Lexed :=
  lexFrom i.fuel none lineBreak [] i

end AmdKit.Script
