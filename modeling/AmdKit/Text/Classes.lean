/-
  AmdKit.Text.Classes
  ────────────────────────────────
  **CLASSES OF CHARACTERS.**

  The blanks are the characters with the Unicode property White_Space.  The set is
  wider than the ASCII blanks (a no-break space and an ideographic space are in it)
  and does not hold the zero-width characters.

  Any other class of characters beyond ASCII is a list of inclusive ranges of code
  points, in increasing order.
-/

namespace AmdKit.Text

/-! ## §1. Blanks. -/

/-- The character has the Unicode property White_Space. -/
def isBlank (c : Char) : Bool :=
  let n := c.toNat
  (0x09 ≤ n && n ≤ 0x0D) || n == 0x20 || n == 0x85 || n == 0xA0 || n == 0x1680
    || (0x2000 ≤ n && n ≤ 0x200A) || n == 0x2028 || n == 0x2029 || n == 0x202F
    || n == 0x205F || n == 0x3000

/-- The text is empty once the blanks at its ends are taken off, that is, it
holds nothing but blanks. -/
def allBlank (s : String) : Bool :=
  s.toList.all isBlank

/-! ## §2. Ranges. -/

/-- The code point lies in one of the increasing ranges. -/
def inRanges (n : Nat) : List (Nat × Nat) → Bool
  | [] => false
  | r :: rs => if n < r.1 then false else if n ≤ r.2 then true else inRanges n rs

end AmdKit.Text
