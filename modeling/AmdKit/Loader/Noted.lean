/-
  AmdKit.Loader.Noted
  ────────────────────────────────
  **VALUES WITH NOTES.**

  Reading a section always gives a value; what had to be left out on the way is
  noted beside it, in the order in which it was met.
-/
import AmdKit.Loader.Warning

namespace AmdKit.Loader

/-- A value and the notes taken while it was read. -/
structure Noted (α : Type) where
  /-- The value. -/
  value : α
  /-- What was left out, in order. -/
  notes : List Note
  deriving Repr

namespace Noted

variable {α β : Type}

/-- A value without notes. -/
def plain (x : α) : Noted α := ⟨x, []⟩

/-- A value that stands in for what was left out. -/
def skipped (x : α) (part : Section) (reason : Reason) : Noted α :=
  ⟨x, [⟨part, reason⟩]⟩

/-- Go on with a value; the later notes come after the earlier ones. -/
def andThen (x : Noted α) (f : α → Noted β) : Noted β :=
  ⟨(f x.value).value, x.notes ++ (f x.value).notes⟩

instance : Monad Noted where
  pure := plain
  bind := andThen

/-- Read each entry of a list; entries that give no value are left out. -/
def collect (read : α → Noted (Option β)) : List α → Noted (List β)
  | [] => ⟨[], []⟩
  | x :: xs =>
    let head := read x
    let tail := collect read xs
    ⟨head.value.toList ++ tail.value, head.notes ++ tail.notes⟩

end Noted

end AmdKit.Loader
