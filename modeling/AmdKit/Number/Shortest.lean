/-
  AmdKit.Number.Shortest
  ────────────────────────────────
  **THE SHORTEST DECIMAL THAT READS BACK.**

  A decimal `digits · 10 ^ exponent` reads back as a magnitude when it lies in
  the interval of numbers that round to it; the ends belong to the interval
  exactly when the mantissa is even.  `shortest` tests one to seventeen digits
  and takes the first count for which one of the two decimals next to the
  magnitude lies in the interval, the nearer one if both do.
-/
import AmdKit.Number.Binary64

namespace AmdKit.Number

/-- The decimal `digits · 10 ^ exponent`. -/
structure Decimal where
  /-- The digits as one integer, without a zero at its end. -/
  digits : Nat
  /-- The power of ten that the digits count. -/
  exponent : Int
  deriving Repr, DecidableEq

/-- Take zeros off the end of the digits, at most `fuel` of them. -/
def Decimal.trimZeros : Nat → Decimal → Decimal
  | 0, d => d
  | fuel + 1, d =>
    if d.digits ≠ 0 ∧ d.digits % 10 = 0 then Decimal.trimZeros fuel ⟨d.digits / 10, d.exponent + 1⟩
    else d

/-- The exponent of the leading decimal digit of a magnitude that is not zero. -/
def leadingExponent (x : Binary64) : Int :=
  let low := Int.fdiv (((x.mantissa.log2 : Int) + x.exponent) * 30103) 100000
  let (num, den) := x.ratio
  let next := low + 1
  if (if 0 ≤ next then den * Nat.pow 10 next.toNat ≤ num else den ≤ num * Nat.pow 10 (-next).toNat) then next
  else low

/-- The decimal on the grid of multiples of `10 ^ k` that reads back as `x` and
is nearest to it. -/
def onGrid? (x : Binary64) (k : Int) : Option Decimal :=
  let quarter := x.exponent - 2
  let step := Nat.pow 10 k.toNat * Nat.pow 2 (-quarter).toNat
  let unit := Nat.pow 10 (-k).toNat * Nat.pow 2 quarter.toNat
  let middle := 4 * x.mantissa * unit
  let low := (4 * x.mantissa - (if x.mantissa = Nat.pow 2 52 ∧ -1074 < x.exponent then 1 else 2)) * unit
  let high := (4 * x.mantissa + 2) * unit
  let readsBack (n : Nat) : Bool :=
    if x.mantissa % 2 = 0 then decide (low ≤ n * step ∧ n * step ≤ high)
    else decide (low < n * step ∧ n * step < high)
  let below := middle / step
  let above := below + 1
  let nearerBelow : Bool :=
    decide (2 * middle < (below + above) * step)
      || (decide (2 * middle = (below + above) * step) && below % 2 == 0)
  match readsBack below, readsBack above with
  | true, true => some ⟨if nearerBelow then below else above, k⟩
  | true, false => some ⟨below, k⟩
  | false, true => some ⟨above, k⟩
  | false, false => none

/-- The shortest decimal that reads back as the magnitude. -/
def shortest (x : Binary64) : Decimal :=
  if x.mantissa = 0 then ⟨0, 0⟩
  else
    let lead := leadingExponent x
    let found := (List.range 17).findSome? fun (n : Nat) => onGrid? x (lead - (n : Int))
    Decimal.trimZeros 17 (found.getD ⟨x.mantissa, x.exponent⟩)

/-! ## §1. Layouts. -/

/-- The decimal digits of an integer. -/
def digitsOf (n : Nat) : List Char := Nat.toDigits 10 n

/-- The digits written positionally: with zeros up to the units, or with a
point among or before the digits. -/
def Decimal.positional (d : Decimal) : List Char :=
  let ds := digitsOf d.digits
  if 0 ≤ d.exponent then ds ++ List.replicate d.exponent.toNat '0'
  else
    let fraction := (-d.exponent).toNat
    if fraction < ds.length then
      ds.take (ds.length - fraction) ++ '.' :: ds.drop (ds.length - fraction)
    else '0' :: '.' :: (List.replicate (fraction - ds.length) '0' ++ ds)

/-- The digits with a point after the first one, and the power of ten. -/
def Decimal.scientific (d : Decimal) : List Char :=
  let ds := digitsOf d.digits
  let power := d.exponent + ds.length - 1
  let point := match ds with
    | first :: second :: rest => first :: '.' :: second :: rest
    | short => short
  point ++ 'e' :: (toString power).toList

/-- The text ends in `.0` unless it has a point already. -/
def withPoint (text : List Char) : List Char :=
  if '.' ∈ text then text else text ++ ['.', '0']

/-- A double as data formats write it: positional from `1e-5` up to `1e16`,
always with a point then. -/
def Binary64.dataText (x : Binary64) : List Char :=
  let d := shortest x
  let lead := d.exponent + (digitsOf d.digits).length
  if x.mantissa = 0 ∨ (-5 < lead ∧ lead ≤ 16) then withPoint d.positional else d.scientific

/-- A double as messages show it: positional at any size, with a point. -/
def Binary64.plainText (x : Binary64) : List Char :=
  withPoint (shortest x).positional

end AmdKit.Number
