/-
  AmdKit.Text.Place
  ────────────────────────────────
  **LINES AND COLUMNS.**

  A place is a line and a column, both counted from one.  Lines end at `\n`
  only, and a column counts characters, not bytes.  An offset that is no
  boundary between two characters has no column of its own and is reported at
  the start of its line.
-/

namespace AmdKit.Text

/-- A place in a text, as a reader counts it. -/
structure Place where
  /-- One more than the number of line ends before the place. -/
  line : Nat
  /-- One more than the number of characters between the start of the line and the place. -/
  column : Nat
  deriving Repr, DecidableEq

/-- The place `n` bytes after the place `here`, which the given characters follow. -/
def Place.advance (here : Place) : List Char → Nat → Place
  | _, 0 => here
  | [], _ + 1 => ⟨here.line, 1⟩
  | c :: cs, n + 1 =>
    if c = '\n' then Place.advance ⟨here.line + 1, 1⟩ cs n
    else if c.utf8Size ≤ n + 1 then
      Place.advance ⟨here.line, here.column + 1⟩ cs (n + 1 - c.utf8Size)
    else ⟨here.line, 1⟩

/-- The place of a byte offset in a text. -/
def placeAt (text : List Char) (offset : Nat) : Place :=
  Place.advance ⟨1, 1⟩ text offset

end AmdKit.Text
