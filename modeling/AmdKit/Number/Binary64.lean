/-
  AmdKit.Number.Binary64
  ────────────────────────────────
  **DOUBLE PRECISION MAGNITUDES, EXACTLY.**

  A magnitude is `mantissa · 2 ^ exponent` with a mantissa below `2 ^ 53` and
  an exponent from `-1074` to `971`.  Every operation computes the exact
  quotient first and rounds it once, to the nearest magnitude, a tie going to
  the even mantissa:

      nearest? num den = none  ↔  the quotient rounds beyond the largest magnitude
-/

namespace AmdKit.Number

/-- The magnitude `mantissa · 2 ^ exponent` of a finite double. -/
structure Binary64 where
  /-- The binary digits, fewer than `2 ^ 53`. -/
  mantissa : Nat
  /-- The power of two that the digits count, at least `-1074`. -/
  exponent : Int
  deriving Repr, DecidableEq

/-- The magnitude nothing is smaller than. -/
def Binary64.zero : Binary64 := ⟨0, -1074⟩

/-! ## §1. Rounding a quotient. -/

/-- The integer nearest to `num / den`, a tie going to the even one. -/
def nearestEven (num den : Nat) : Nat :=
  let q := num / den
  let r := num % den
  if 2 * r < den ∨ (2 * r = den ∧ q % 2 = 0) then q else q + 1

/-- The quotient `num / den` divided by `2 ^ e`, as a quotient of integers. -/
def dividedByPower (num den : Nat) (e : Int) : Nat × Nat :=
  if 0 ≤ e then (num, den * Nat.pow 2 e.toNat) else (num * Nat.pow 2 (-e).toNat, den)

/-- The magnitude nearest to `num / den`; `none` when it would exceed the
largest one. -/
def Binary64.nearest? (num den : Nat) : Option Binary64 :=
  if num = 0 then some Binary64.zero
  else
    let low : Int := (num.log2 : Int) - den.log2 - 53
    let (a, b) := dividedByPower num den low
    let e := max (if a / b < Nat.pow 2 53 then low else low + 1) (-1074)
    let (a, b) := dividedByPower num den e
    let m := nearestEven a b
    let rounded : Binary64 := if m = Nat.pow 2 53 then ⟨Nat.pow 2 52, e + 1⟩ else ⟨m, e⟩
    if rounded.exponent ≤ 971 then some rounded else none

/-! ## §2. Arithmetic. -/

/-- The magnitude as a quotient of integers. -/
def Binary64.ratio (x : Binary64) : Nat × Nat :=
  if 0 ≤ x.exponent then (x.mantissa * Nat.pow 2 x.exponent.toNat, 1)
  else (x.mantissa, Nat.pow 2 (-x.exponent).toNat)

/-- The rounded product; `none` when it is out of range. -/
def Binary64.mul? (x y : Binary64) : Option Binary64 :=
  Binary64.nearest? (x.ratio.1 * y.ratio.1) (x.ratio.2 * y.ratio.2)

/-- The rounded quotient; `none` when it is out of range. -/
def Binary64.div? (x y : Binary64) : Option Binary64 :=
  Binary64.nearest? (x.ratio.1 * y.ratio.2) (x.ratio.2 * y.ratio.1)

end AmdKit.Number
