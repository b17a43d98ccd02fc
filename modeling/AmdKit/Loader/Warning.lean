/-
  AmdKit.Loader.Warning
  ────────────────────────────────
  **WHAT CAN BE WRONG WITH A CONFIGURATION.**

  A failure ends an operation.  A warning does not: the part that it names is
  left out and the rest is used.  The part is named by a section, a path from
  the document to the entry.
-/
import AmdKit.Json.Fault

namespace AmdKit.Loader

/-! ## §1. Sections. -/

/-- One step from a value into it. -/
inductive Step where
  /-- To the member with a name. -/
  | member (name : String)
  /-- To the item at an index. -/
  | item (index : Nat)
  deriving Repr, DecidableEq

/-- A part of a document: the steps that lead to it. -/
abbrev Section := List Step

/-- A step as it is appended to a section's text. -/
def Step.text : Step → String
  | .member name => "." ++ name
  | .item index => "[" ++ toString index ++ "]"

/-- The text of a section: members with points between them, indices in
brackets. -/
def Section.text : Section → String
  | [] => ""
  | .member name :: rest => name ++ String.join (rest.map Step.text)
  | .item index :: rest => Step.text (.item index) ++ String.join (rest.map Step.text)

/-! ## §2. Warnings. -/

/-- The type of a JSON value. -/
inductive Shape where
  /-- The literal `null`. -/
  | null
  /-- The literal `true` or `false`. -/
  | boolean
  /-- A number. -/
  | number
  /-- A string. -/
  | string
  /-- A list. -/
  | array
  /-- An object. -/
  | object
  deriving Repr, DecidableEq

/-- The type of a value. -/
def Shape.of : Json → Shape
  | .null => .null
  | .bool _ => .boolean
  | .number _ => .number
  | .string _ => .string
  | .array _ => .array
  | .object _ => .object

/-- The wording of a type. -/
def Shape.text : Shape → String
  | .null => "null"
  | .boolean => "a boolean"
  | .number => "a number"
  | .string => "a string"
  | .array => "an array"
  | .object => "an object"

/-- Why a part was left out. -/
inductive Reason where
  /-- The part is no object. -/
  | notObject (found : Shape)
  /-- The part is no list. -/
  | notArray (found : Shape)
  /-- The part is no string. -/
  | notString (found : Shape)
  /-- The part is neither a string nor an object. -/
  | notStringOrObject (found : Shape)
  /-- The part is neither a list nor an object. -/
  | notArrayOrObject (found : Shape)
  /-- The exported name is no string. -/
  | exportsNotString (found : Shape)
  /-- A path entry does not say where the module is found. -/
  | missingPath
  /-- An override does not say which bundle it belongs to. -/
  | missingBundleId
  /-- The bundle id of an override is blank. -/
  | blankBundleId
  deriving Repr, DecidableEq

/-- The wording of a reason. -/
def Reason.text : Reason → String
  | .notObject found => "expected an object, found " ++ found.text
  | .notArray found => "expected an array, found " ++ found.text
  | .notString found => "expected a string, found " ++ found.text
  | .notStringOrObject found => "expected a string or an object, found " ++ found.text
  | .notArrayOrObject found => "expected an array or an object, found " ++ found.text
  | .exportsNotString found => "`exports` must be a string, found " ++ found.text
  | .missingPath => "missing `path`"
  | .missingBundleId => "missing `bundleId`"
  | .blankBundleId => "override without a bundle id"

/-- A part that was left out. -/
structure Note where
  /-- Which part. -/
  part : Section
  /-- Why it was left out. -/
  reason : Reason
  deriving Repr, DecidableEq

/-- A part of a named document that was left out. -/
structure Warning where
  /-- The name of the document. -/
  source : String
  /-- What was left out. -/
  note : Note
  deriving Repr, DecidableEq

/-- The wording of a warning. -/
def Warning.message (w : Warning) : String :=
  "malformed configuration fragment `" ++ w.source ++ "` in `" ++ w.note.part.text ++ "`: "
    ++ w.note.reason.text

/-! ## §3. Failures. -/

/-- Why a file can not be used. -/
inductive AccessFault where
  /-- Nothing has this path. -/
  | missing
  /-- The path leads to a directory. -/
  | isDirectory
  /-- The path goes through a file as if it were a directory. -/
  | notDirectory
  /-- The bytes of the file are no UTF-8. -/
  | notText
  deriving Repr, DecidableEq

/-- The wording of an access fault. -/
def AccessFault.text : AccessFault → String
  | .missing => "No such file or directory (os error 2)"
  | .isDirectory => "Is a directory (os error 21)"
  | .notDirectory => "Not a directory (os error 20)"
  | .notText => "stream did not contain valid UTF-8"

/-- Why a configuration can not be read or written. -/
inductive Failure where
  /-- The text of the document is not JSON. -/
  | invalidJson (source : String) (failure : Json.Failure)
  /-- The document is JSON, but no object. -/
  | notAnObject (source : String)
  /-- The file can not be used. -/
  | inaccessible (path : String) (fault : AccessFault)
  deriving Repr, DecidableEq

/-- The wording of a failure. -/
def Failure.message : Failure → String
  | .invalidJson source failure => "invalid JSON in `" ++ source ++ "`: " ++ failure.message
  | .notAnObject source => "configuration `" ++ source ++ "` is not a JSON object"
  | .inaccessible path fault => "failed to access `" ++ path ++ "`: " ++ fault.text

end AmdKit.Loader
