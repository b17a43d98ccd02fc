/-
  AmdKit.Amd.Patch
  ────────────────────────────────
  **APPLYING EDITS TOGETHER.**

  All offsets of a batch count in the text before any of its edits.  The batch
  is sorted by offset and applied from the last offset down, so no edit moves
  the place of one that is still to come.  At one offset an empty array is
  inserted first and filled afterwards.
-/
import AmdKit.Amd.Edit

namespace AmdKit.Amd

/-! ## §1. The order of a batch. -/

/-- The place of a kind among the edits at one offset; the highest is applied
first. -/
def EditKind.rank : EditKind → Nat
  | .fillDependencies => 0
  | .addEmptyArray => 1

namespace Edit

/-- The edit stands before, or with, another one. -/
def le (a b : Edit) : Bool :=
  decide (a.point < b.point) || (a.point == b.point && decide (a.kind.rank ≤ b.kind.rank))

/-- The edits have one offset and one kind. -/
def sameKey (a b : Edit) : Bool :=
  a.point == b.point && a.kind == b.kind

/-- Insert an edit into a sorted list, before those that stand with it. -/
def insert (e : Edit) : List Edit → List Edit
  | [] => [e]
  | x :: xs => if e.le x then e :: x :: xs else x :: insert e xs

/-- Sort by offset and kind; edits with the same key keep their order. -/
def sort (es : List Edit) : List Edit := es.foldr insert []

end Edit

/-! ## §2. Checks. -/

/-- Every edit lies inside its statement. -/
def checkScopes : List Edit → Except PatchFault Unit
  | [] => .ok ()
  | e :: es =>
    if e.scope.touches e.point then checkScopes es
    else .error (.outsideStatement e.kind e.point e.scope)

/-- No two neighbours have the same key. -/
def checkCollisions : List Edit → Except PatchFault Unit
  | a :: b :: es =>
    if a.sameKey b then .error (.collision a.kind a.target b.kind b.target)
    else checkCollisions (b :: es)
  | _ => .ok ()

/-! ## §3. Batches. -/

/-- Apply the edits of a sorted list, the last one first. -/
def applyBackwards (script : List Char) : List Edit → Except PatchFault (List Char)
  | [] => .ok script
  | e :: es => do
    let script ← applyBackwards script es
    Edit.apply script e

/-- Apply a batch of edits to a script. -/
def execute (source : String) (edits : List Edit) : Except PatchFault String := do
  let sorted := Edit.sort edits
  checkScopes sorted
  checkCollisions sorted
  return String.ofList (← applyBackwards source.toList sorted)

end AmdKit.Amd
