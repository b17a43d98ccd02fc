/-
  AmdKit.Proofs.ArgumentStarts
  ────────────────────────────────
  **WHERE THE ARRAYS OF AN INJECTION GO.**

  A call says at which offset its last argument begins, and its array goes there.  That
  the argument does begin there is what a parser sees to: of a script it reads, every
  argument of every call stands in the text at its offset.  A source is its script
  behind a byte order mark that it may have, so

      text = mark ++ script    the offset counts the mark
      text = script            as it is

  as long as the script itself is not marked.  The parser drops such a mark without
  counting it, and the array is written three bytes too early.
-/
import AmdKit.Proofs.Mark
import AmdKit.Proofs.SourceOrder

namespace AmdKit.Amd

open Script (Node scriptOf)
open Text (byteLength weave)

variable {text : List Char} {source : Source} {c : Call} {p : Nat}

/-! ## §1. Scripts of sources. -/

end AmdKit.Amd
