/-
  AmdKit.Amd.Source
  ────────────────────────────────
  **SOURCES.**

  A source is the text of a script.  A byte order mark in front of it is set
  aside before the script is read, and counted again in every range and place
  that is reported.
-/
import AmdKit.Script.Program
import AmdKit.Text.Place

namespace AmdKit.Amd

open Text (Span Place placeAt byteLength)

/-! ## §1. Faults. -/

/-- Why a source can not be read. -/
structure SourceFault where
  /-- Where it is wrong. -/
  place : Place
  /-- What is wrong there. -/
  issue : Script.Issue
  deriving Repr, DecidableEq

/-- The wording of a fault. -/
def SourceFault.message (f : SourceFault) : String :=
  "parse error at line " ++ toString f.place.line ++ ", column " ++ toString f.place.column ++ ": "
    ++ f.issue.message

/-! ## §2. Reading. -/

/-- A source that has been read. -/
structure Source where
  /-- Its script. -/
  program : Script.Program
  /-- The number of bytes in front of the script. -/
  base : Nat
  deriving Repr

/-- The byte order mark. -/
def mark : Char := '\ufeff'

/-- The number of bytes that a byte order mark takes in front of a text, and
the text without it. -/
def splitMark : List Char → Nat × List Char
  | [] => (0, [])
  | c :: cs => if c = mark then (mark.utf8Size, cs) else (0, c :: cs)

/-- Read a source. -/
def Source.read (text : List Char) : Except SourceFault Source :=
  let (base, script) := splitMark text
  match Script.parse script with
  | .ok program => .ok ⟨program, base⟩
  | .error fault =>
    .error ⟨placeAt text (min (fault.offset + base) (byteLength text)), fault.issue⟩

end AmdKit.Amd
