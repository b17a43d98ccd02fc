/-
  AmdKit.Script.Issue
  ────────────────────────────────
  **WHAT IS WRONG WITH A SCRIPT.**

  An issue is a reason to reject a script, whether the parser could have gone
  on after it or not.  A fault is an issue with the byte offset at which it is
  reported.
-/
import AmdKit.Text.Shown

namespace AmdKit.Script

/-- A reason to reject a script. -/
inductive Issue where
  /-- The script ends too early. -/
  | unexpectedEnd
  /-- A certain token is missing. -/
  | expected (wanted found : String)
  /-- A token stands where something else is wanted. -/
  | unexpected (found wanted : String)
  /-- No expression begins here. -/
  | expressionExpected
  /-- An expression statement does not end. -/
  | expressionNotEnded
  /-- Another statement does not end. -/
  | semicolonExpected
  /-- No identifier stands here. -/
  | identifierExpected
  /-- A `return` outside of functions. -/
  | returnOutside
  /-- A declaration where only a statement may stand. -/
  | declarationNotAllowed
  /-- Something that can not be a pattern. -/
  | invalidPattern
  /-- Something that no assignment can write to. -/
  | notAssignable
  /-- Something that can not be assigned to. -/
  | invalidTarget
  /-- Something that a compound assignment or a pattern can not write to. -/
  | notSimpleTarget
  /-- An import or export that is not at the top of a module. -/
  | moduleCodeInScript
  /-- A constant without a value. -/
  | constantNotInitialized
  /-- A pattern without a value. -/
  | patternNotInitialized
  /-- A comma that nothing follows. -/
  | trailingComma
  /-- A label inside a statement with the same label. -/
  | duplicateLabel (name : String)
  /-- A `break` that is in no loop and no switch. -/
  | breakOutside
  /-- A `break` to a label that no enclosing statement has. -/
  | breakLabel
  /-- A `continue` that is in no loop. -/
  | continueOutside
  /-- A `continue` to a label that no enclosing statement has. -/
  | continueLabel
  /-- A regular expression without an end. -/
  | unterminatedRegex
  /-- A string without an end. -/
  | unterminatedString
  /-- A template without an end. -/
  | unterminatedTemplate
  /-- A comment without an end. -/
  | unterminatedComment
  /-- A letter directly after a number. -/
  | identifierAfterNumber
  /-- An underscore in a number that is not between two digits. -/
  | misplacedSeparator
  /-- A number without digits. -/
  | digitExpected (radix : Nat)
  /-- An octal number or escape of the old kind. -/
  | legacyOctal
  /-- A decimal number that starts with a zero. -/
  | legacyDecimal
  /-- An escape without the digits that it asks for. -/
  | badEscape (wanted : String)
  /-- A braced escape without its closing brace. -/
  | invalidUnicodeEscape
  /-- A backslash outside of strings that no `u` follows. -/
  | unicodeEscapeExpected
  /-- An escape for a character that can not stand in an identifier. -/
  | invalidIdentifierCharacter
  /-- A reserved word that is written with an escape. -/
  | escapedReservedWord (word : String)
  /-- A character that starts no token. -/
  | unexpectedCharacter (c : Char)
  /-- A regular expression flag that is given twice. -/
  | duplicateFlag (flag : Char)
  /-- A regular expression flag that does not exist. -/
  | unknownFlag
  /-- A line break between `throw` and what is thrown. -/
  | lineBreakAfterThrow
  /-- A comment of the markup kind in a module. -/
  | legacyComment
  /-- A `with` in strict code. -/
  | withInStrict
  /-- A `delete` of a name in strict code. -/
  | deleteName
  /-- A name that strict code reserves. -/
  | reservedInStrict (name : String)
  /-- The name `eval` or `arguments` bound in strict code. -/
  | evalOrArguments
  /-- The name `await` in asynchronous code or a module. -/
  | awaitAsName
  /-- An `await` in a function that is not asynchronous. -/
  | awaitInFunction
  /-- An `await` among the parameters of an asynchronous function. -/
  | awaitInParameters
  /-- An `await` with a star. -/
  | awaitStar
  /-- A `yield` among the parameters of a generator. -/
  | yieldInParameters
  /-- A `new.target` outside of functions and classes. -/
  | newTargetOutside
  /-- The name `arguments` in the value of a field. -/
  | argumentsInField
  /-- A shorthand property with a default value outside of patterns. -/
  | assignProperty
  /-- A reserved word as a shorthand property. -/
  | reservedShorthand
  /-- The operator `??` next to `||` or `&&` without parentheses. -/
  | nullishMixed
  /-- The operator `**` after a unary operator. -/
  | unaryPower
  /-- A second constructor. -/
  | duplicateConstructor
  /-- A constructor that is a generator. -/
  | generatorConstructor
  /-- A constructor that is asynchronous. -/
  | asyncConstructor
  /-- A constructor that is an accessor. -/
  | accessorConstructor
  /-- A field with the name of the constructor. -/
  | fieldConstructor
  /-- A private member with the name of the constructor. -/
  | privateConstructor
  /-- A second default clause. -/
  | duplicateDefault
  /-- A getter with parameters. -/
  | getterParameters
  /-- A setter without exactly one parameter. -/
  | setterParameters
  /-- A setter with a rest parameter. -/
  | setterRest
  /-- A rest parameter before another one. -/
  | restParameterNotLast
  /-- A rest element before another one. -/
  | restNotLast
  /-- A comma after a rest element. -/
  | commaAfterRest
  /-- A rest parameter with a default value. -/
  | restDefault
  /-- A rest property that is no name. -/
  | restNotName
  /-- A strict directive in a function with patterns among its parameters. -/
  | strictWithPatterns
  /-- A loop over the name `async`. -/
  | forOfAsync
  /-- Several variables in the head of a loop over values. -/
  | oneBindingExpected
  /-- A value in the head of a loop over values. -/
  | initializerInFor
  /-- A `for await` that is no loop over values. -/
  | forAwaitOnly
  /-- Parentheses with nothing inside. -/
  | emptyParentheses
  /-- A spread inside of parentheses. -/
  | spreadInParentheses
  /-- A line break before an arrow. -/
  | lineBreakBeforeArrow
  /-- An arrow that can not stand here. -/
  | arrowNotAllowed
  /-- An optional chain after `new`. -/
  | optionalChainAfterNew
  /-- A tagged template in an optional chain. -/
  | templateInOptionalChain
  /-- A `super` without access to a member. -/
  | invalidSuper
  /-- A blank between `#` and the name of a private member. -/
  | spaceAfterHash
  /-- A labelled function in strict code. -/
  | labelledFunctionInStrict
  /-- A labelled generator or asynchronous function. -/
  | labelledGenerator
  /-- A reserved word as a local name of an import. -/
  | reservedImport
  /-- A string as the local name of an import. -/
  | importBindingIsString (name : String)
  /-- A string as the local name of an export. -/
  | exportBindingIsString
  /-- A reserved word that is exported as the name of a variable. -/
  | exportExpectsFrom (word : String)
  /-- A comma after the argument of an import call. -/
  | importTrailingComma
  deriving Repr, DecidableEq

/-- The name of the digits of a radix. -/
def radixName : Nat → String
  | 2 => "a binary"
  | 8 => "an octal"
  | 10 => "a decimal"
  | _ => "a hexadecimal"

/-- The wording of an issue. -/
def Issue.message : Issue → String
  | .unexpectedEnd => "Unexpected eof"
  | .expected wanted found => "Expected '" ++ wanted ++ "', got '" ++ found ++ "'"
  | .unexpected found wanted => "Unexpected token `" ++ found ++ "`. Expected " ++ wanted
  | .expressionExpected => "Expression expected"
  | .expressionNotEnded => "Expected ';', '\x7d' or <eof>"
  | .semicolonExpected => "Expected a semicolon"
  | .identifierExpected => "Expected ident"
  | .returnOutside => "Return statement is not allowed here"
  | .declarationNotAllowed => "Declaration is not allowed"
  | .invalidPattern => "Not a pattern"
  | .notAssignable => "Invalid assignment target"
  | .invalidTarget =>
    "The left-hand side of an assignment expression must be a variable or a property access."
  | .notSimpleTarget => "Cannot assign to this"
  | .moduleCodeInScript => "'import', and 'export' cannot be used outside of module code"
  | .constantNotInitialized => "'const' declarations must be initialized"
  | .patternNotInitialized => "Destructuring bindings require initializers"
  | .trailingComma => "Trailing comma is not allowed"
  | .duplicateLabel name => "Label " ++ name ++ " is already declared"
  | .breakOutside =>
    "A 'break' statement can only be used within an enclosing iteration or switch statement"
  | .breakLabel => "A 'break' statement can only jump to a label of an enclosing statement"
  | .continueOutside =>
    "A 'continue' statement can only jump to a label of an enclosing iteration statement"
  | .continueLabel => "Jump target cannot cross function boundary"
  | .unterminatedRegex => "Unterminated regexp literal"
  | .unterminatedString => "Unterminated string constant"
  | .unterminatedTemplate => "Unterminated template"
  | .unterminatedComment => "Unterminated block comment"
  | .identifierAfterNumber => "Identifier cannot follow number"
  | .misplacedSeparator => "A numeric separator is only allowed between two digits"
  | .digitExpected radix => "Expected " ++ radixName radix ++ " digit"
  | .legacyOctal => "Legacy octal escape is not permitted in strict mode"
  | .legacyDecimal => "Legacy decimal escape is not permitted in strict mode"
  | .badEscape wanted => "Bad character escape sequence, expected " ++ wanted
  | .invalidUnicodeEscape => "Invalid unicode escape"
  | .unicodeEscapeExpected => "Expected unicode escape"
  | .invalidIdentifierCharacter => "Invalid character in identifier"
  | .escapedReservedWord word => "Unexpected escape sequence in reserved word: " ++ word
  | .unexpectedCharacter c => "Unexpected character '" ++ String.ofList (Text.shownChar c) ++ "'"
  | .duplicateFlag flag =>
    "Duplicated regular expression flag '" ++ String.ofList [flag] ++ "'."
  | .unknownFlag => "Unknown regular expression flags."
  | .lineBreakAfterThrow => "LineBreak cannot follow 'throw'"
  | .legacyComment => "Legacy comments cannot be used in module code"
  | .withInStrict => "With statement are not allowed in strict mode"
  | .deleteName => "'delete' cannot be called on an identifier in strict mode"
  | .reservedInStrict name => "`" ++ name ++ "` cannot be used as an identifier in strict mode"
  | .evalOrArguments =>
    "'eval' and 'arguments' cannot be used as a binding identifier in strict mode"
  | .awaitAsName => "`await` cannot be used as an identifier in an async context"
  | .awaitInFunction => "await isn't allowed in non-async function"
  | .awaitInParameters => "`await` expressions cannot be used in a parameter initializer."
  | .awaitStar => "`await*` has been removed from the async functions proposal. Use Promise.all() instead."
  | .yieldInParameters => "'yield' cannot be used as a parameter within generator"
  | .newTargetOutside =>
    "'new.target' is only allowed in the body of a function declaration, function expression, or class."
  | .argumentsInField => "'arguments' is only allowed in functions and class methods"
  | .assignProperty => "assignment property is invalid syntax"
  | .reservedShorthand => "Cannot use a reserved word as a shorthand property"
  | .nullishMixed =>
    "Nullish coalescing operator(??) requires parens when mixing with logical operators"
  | .unaryPower => "'**' cannot be applied to unary/await expression."
  | .duplicateConstructor => "A class can only have one constructor"
  | .generatorConstructor => "Constructor can't be generator"
  | .asyncConstructor => "Constructor can't be an async function"
  | .accessorConstructor => "Class constructor can't be an accessor"
  | .fieldConstructor => "Classes may not have a non-static field named 'constructor'"
  | .privateConstructor => "Classes can't have a private field named '#constructor'."
  | .duplicateDefault => "A switch block cannot have multiple defaults"
  | .getterParameters => "A `get` accessor cannot have parameters"
  | .setterParameters => "A `set` accessor must have exactly one parameter"
  | .setterRest => "Rest parameter is not allowed in setter"
  | .restParameterNotLast => "A rest parameter must be last in a parameter list"
  | .restNotLast => "Rest element must be final element"
  | .commaAfterRest => "Trailing comma isn't permitted after a rest element"
  | .restDefault => "A rest parameter cannot have an initializer"
  | .restNotName => "`...` must be followed by an identifier in declaration contexts"
  | .strictWithPatterns =>
    "Illegal 'use strict' directive in function with non-simple parameter list."
  | .forOfAsync => "The left-hand side of a `for...of` statement may not be `async`"
  | .oneBindingExpected => "Expected one variable binding"
  | .initializerInFor => "Unexpected initializer in for in/of loop"
  | .forAwaitOnly => "for await syntax is valid only for for-of statement"
  | .emptyParentheses => "Parenthized expression cannot be empty"
  | .spreadInParentheses => "Parenthesized expression cannot contain spread operator"
  | .lineBreakBeforeArrow => "Unexpected line break between arrow head and arrow"
  | .arrowNotAllowed => "An arrow function is not allowed here"
  | .optionalChainAfterNew => "Constructor in/after an optional chaining is not allowed."
  | .templateInOptionalChain => "Tagged template literal is not allowed in optional chain"
  | .invalidSuper => "Invalid access to super"
  | .spaceAfterHash => "Unexpected space between # and identifier"
  | .labelledFunctionInStrict => "Function cannot be labelled in strict mode"
  | .labelledGenerator => "Generator or async function cannot be labelled"
  | .reservedImport => "cannot import as reserved word"
  | .importBindingIsString name =>
    "A string literal cannot be used as an imported binding.\n- Did you mean `import \x7b \""
      ++ name ++ "\" as foo \x7d`?"
  | .exportBindingIsString =>
    "A string literal cannot be used as an exported binding without `from`."
  | .exportExpectsFrom word => "`" ++ word ++ "` cannot be used without `from` clause"
  | .importTrailingComma => "Trailing comma is disallowed inside import(...) arguments"

/-- An issue and the byte offset at which it is reported. -/
structure Fault where
  /-- What is wrong. -/
  issue : Issue
  /-- Where it is reported. -/
  offset : Nat
  deriving Repr, DecidableEq

end AmdKit.Script
