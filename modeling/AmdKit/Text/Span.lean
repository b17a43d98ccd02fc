/-
  AmdKit.Text.Span
  ────────────────────────────────
  **RANGES OF A TEXT.**

  A span is a half-open range of byte offsets.
-/

namespace AmdKit.Text

/-- The bytes from `start` up to, and not with, `stop`. -/
structure Span where
  /-- The offset of the first byte. -/
  start : Nat
  /-- The offset after the last byte. -/
  stop : Nat
  deriving Repr, DecidableEq, Inhabited

/-- The span `n` bytes further on. -/
def Span.shift (s : Span) (n : Nat) : Span := ⟨s.start + n, s.stop + n⟩

/-- The offset lies in the span or at its end. -/
def Span.touches (s : Span) (offset : Nat) : Bool :=
  decide (s.start ≤ offset) && decide (offset ≤ s.stop)

end AmdKit.Text
