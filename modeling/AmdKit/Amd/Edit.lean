/-
  AmdKit.Amd.Edit
  ────────────────────────────────
  **EDITS OF A SCRIPT.**

  Two edits give a call its dependency array: one inserts an empty array
  before the last argument, the other writes module ids into an empty array.
  Both name their place by a byte offset of the text that they are applied to.
-/
import AmdKit.Json.Printer
import AmdKit.Text.Bytes
import AmdKit.Text.Span

namespace AmdKit.Amd

open Text (Span byteLength cutAt)

/-! ## §1. Edits. -/

/-- What an edit does. -/
inductive EditKind where
  /-- Insert an empty array and a comma. -/
  | addEmptyArray
  /-- Write module ids into an empty array. -/
  | fillDependencies
  deriving Repr, DecidableEq

/-- One edit of a script. -/
inductive Edit where
  /-- Insert an empty array and a comma at `point`, inside the statement `scope`. -/
  | addEmptyArray (scope : Span) (point : Nat)
  /-- Write the modules into the empty array at `point`, inside the statement `scope`. -/
  | fillDependencies (scope : Span) (point : Nat) (modules : List String)
  deriving Repr, DecidableEq

namespace Edit

/-- What the edit does. -/
def kind : Edit → EditKind
  | .addEmptyArray .. => .addEmptyArray
  | .fillDependencies .. => .fillDependencies

/-- The offset at which the edit works. -/
def point : Edit → Nat
  | .addEmptyArray _ p => p
  | .fillDependencies _ p _ => p

/-- The statement that the edit must not leave. -/
def scope : Edit → Span
  | .addEmptyArray s _ => s
  | .fillDependencies s _ _ => s

/-- The range that the edit replaces: nothing, at its point. -/
def target (e : Edit) : Span := ⟨e.point, e.point⟩

end Edit

/-- The name of a kind, as messages show it. -/
def EditKind.name : EditKind → String
  | .addEmptyArray => "AddEmptyDepsArray"
  | .fillDependencies => "FillDependencies"

/-! ## §2. Faults. -/

/-- Why edits can not be applied. -/
inductive PatchFault where
  /-- The edit lies outside of its statement. -/
  | outsideStatement (kind : EditKind) (point : Nat) (scope : Span)
  /-- Two edits of one kind work at one offset. -/
  | collision (first : EditKind) (firstTarget : Span) (second : EditKind) (secondTarget : Span)
  /-- The offset is beyond the end of the text or inside a character. -/
  | badOffset (offset length : Nat)
  /-- No empty array stands at the offset. -/
  | noArray (offset : Nat)
  deriving Repr, DecidableEq

/-- A span as messages show it. -/
def spanText (s : Span) : String := toString s.start ++ ".." ++ toString s.stop

/-- The wording of a fault. -/
def PatchFault.message : PatchFault → String
  | .outsideStatement kind point scope =>
    kind.name ++ " at " ++ toString point ++ " lies outside its statement " ++ spanText scope
  | .collision first firstTarget second secondTarget =>
    first.name ++ " at " ++ spanText firstTarget ++ " collides with " ++ second.name ++ " at "
      ++ spanText secondTarget
  | .badOffset offset length =>
    "offset " ++ toString offset ++ " is outside a " ++ toString length
      ++ " byte script or inside a character"
  | .noArray offset => "expected an empty dependency array at offset " ++ toString offset

/-! ## §3. Applying one edit. -/

/-- Apply an edit to a script. -/
def Edit.apply (script : List Char) (e : Edit) : Except PatchFault (List Char) :=
  match cutAt script e.point, e with
  | none, _ => .error (.badOffset e.point (byteLength script))
  | some (l, r), .addEmptyArray .. => .ok (l ++ '[' :: ']' :: ',' :: r)
  | some (l, '[' :: ']' :: r), .fillDependencies _ _ modules =>
    .ok (l ++ '[' :: (Json.quotedList modules ++ ']' :: r))
  | some _, .fillDependencies .. => .error (.noArray e.point)

end AmdKit.Amd
